import Recast.Search.Select

/-!
# Query-local tokens

The probed lists share one range of tokens. The scanner sees its rows under
them, and each of them leads back to the slot it was given for.
-/

namespace Recast

open Foundation

variable {config : IndexConfig} {index : Index} {selected : List UInt32} {tokenBase tokens : Nat}
  {blocks : List CodeBlockView}

/-- The slots of the probed lists, in the order they are scanned in. -/
def probedSlots (index : Index) (selected : List UInt32) : List (Nat × Nat) :=
  selected.flatMap fun listNo =>
    (List.range (index.lists listNo.toNat).logicalSize).map fun offset => (listNo.toNat, offset)

theorem mem_probedSlots {slot : Nat × Nat} : slot ∈ probedSlots index selected ↔
    (∃ listNo ∈ selected, listNo.toNat = slot.1) ∧
      slot.2 < (index.lists slot.1).logicalSize := by
  simp only [probedSlots, List.mem_flatMap, List.mem_map, List.mem_range]
  constructor
  · rintro ⟨listNo, hlist, offset, hoffset, rfl⟩
    exact ⟨⟨listNo, hlist, rfl⟩, hoffset⟩
  · rintro ⟨⟨listNo, hlist, hslot⟩, hoffset⟩
    exact ⟨listNo, hlist, slot.2, hslot ▸ hoffset, Prod.ext hslot rfl⟩

/-- Distinct lists are probed slot by slot, each slot once. -/
theorem nodup_probedSlots (hselected : selected.Nodup) : (probedSlots index selected).Nodup := by
  refine List.nodup_flatMap.mpr ⟨fun listNo _ => ?_, hselected.imp fun hne => ?_⟩
  · exact List.nodup_range.map fun _ _ h => congrArg Prod.snd h
  · intro slot hfirst hsecond
    obtain ⟨_, -, rfl⟩ := List.mem_map.mp hfirst
    obtain ⟨_, -, hslot⟩ := List.mem_map.mp hsecond
    exact hne (UInt32.toNat_inj.mp (congrArg Prod.fst hslot)).symm

/-! ### The blocks -/

/-- The rows of a probed list take the next tokens. -/
theorem rowIds_probed {size : Nat} (hfits : tokenBase + size ≤ uint32Max)
    (packedCodes packedMetadata : Option Bytes) (paddedSize blockSize : Nat) :
    CodeBlockView.rowIds ⟨packedCodes, packedMetadata, none, size, paddedSize, blockSize,
      UInt32.ofNat tokenBase⟩ = (List.range size).map (tokenBase + ·) := by
  refine List.map_congr_left fun row hrow => ?_
  have hrow : row < size := List.mem_range.mp hrow
  have hmax : uint32Max = 2 ^ 32 - 1 := rfl
  rw [CodeBlockView.idAt, UInt32.toNat_add, UInt32.toNat_ofNat', UInt32.toNat_ofNat']
  omega

/-- The blocks of a search hold one row for each slot, numbered from the first token on. -/
theorem probedBlocks_spec (hbase : tokenBase ≤ uint32Max)
    (h : probedBlocks index (selected.map UInt32.toNat) tokenBase = .ok (blocks, tokens)) :
    tokens = tokenBase + (probedSlots index selected).length ∧ tokens ≤ uint32Max ∧
      blocks.flatMap CodeBlockView.rowIds =
        (List.range (probedSlots index selected).length).map (tokenBase + ·) := by
  induction selected generalizing tokenBase blocks tokens with
  | nil =>
      cases h
      exact ⟨rfl, hbase, rfl⟩
  | cons listNo rest ih =>
      rw [List.map_cons, probedBlocks] at h
      have hslots : (probedSlots index (listNo :: rest)).length =
          (index.lists listNo.toNat).logicalSize + (probedSlots index rest).length := by
        rw [probedSlots, List.flatMap_cons, List.length_append, List.length_map, List.length_range]
        rfl
      dsimp only at h
      split at h
      next hempty =>
        rw [hslots, hempty, Nat.zero_add]
        exact ih hbase h
      next =>
        split at h
        next => cases h
        next hfits =>
          obtain ⟨⟨others, total⟩, hothers, h⟩ := bind_eq_ok.mp h
          rw [pure_eq_ok, Except.ok.injEq, Prod.mk.injEq] at h
          obtain ⟨rfl, rfl⟩ := h
          obtain ⟨htotal, hmax, hids⟩ := ih (Nat.not_lt.mp hfits) hothers
          refine ⟨by rw [htotal, hslots, Nat.add_assoc], hmax, ?_⟩
          rw [List.flatMap_cons, hids, rowIds_probed (Nat.not_lt.mp hfits), hslots, List.range_add,
            List.map_append, List.map_map]
          congr 1
          exact List.map_congr_left fun token _ => Nat.add_assoc _ _ _

/-- The tokens of a search count its slots. -/
theorem searchBlocks_spec {topk : Nat}
    (h : searchBlocks index (selected.map UInt32.toNat) topk = .ok blocks) :
    0 < topk ∧ topk ≤ (probedSlots index selected).length ∧
      (probedSlots index selected).length ≤ uint32Max ∧
      blocks.flatMap CodeBlockView.rowIds = List.range (probedSlots index selected).length := by
  rw [searchBlocks, guard_eq_ok] at h
  obtain ⟨hrequest, h⟩ := h
  obtain ⟨⟨blocks, tokens⟩, hprobed, h⟩ := bind_eq_ok.mp h
  dsimp only at h
  rw [guard_eq_ok, Except.ok.injEq] at h
  obtain ⟨hcount, rfl⟩ := h
  obtain ⟨rfl, hmax, hids⟩ := probedBlocks_spec (Nat.zero_le _) hprobed
  rw [Nat.zero_add] at hcount hmax
  refine ⟨by omega, Nat.not_lt.mp hcount, hmax, ?_⟩
  rw [hids]
  simp only [Nat.zero_add, List.map_id']

/-! ### The way back -/

variable {candidate : DistanceEstimate Float32}

theorem locate_cons_of_lt {span : TokenSpan} (spans : List TokenSpan)
    (hbegin : span.tokenBegin ≤ candidate.id) (hend : candidate.id < span.tokenEnd) :
    locate (span :: spans) candidate = .ok ⟨span.listNo.toNat,
      (candidate.id - span.tokenBegin) % 2 ^ 32, span.listNo.toNat_lt,
      Nat.mod_lt _ (by norm_num)⟩ := by
  have hfound : (span :: spans).find? (fun span => candidate.id < span.tokenEnd) = some span :=
    List.find?_cons_of_pos (decide_eq_true hend)
  rw [locate, hfound]
  exact if_neg (Nat.not_lt.mpr hbegin)

theorem locate_cons_of_le {span : TokenSpan} (spans : List TokenSpan)
    (hend : span.tokenEnd ≤ candidate.id) :
    locate (span :: spans) candidate = locate spans candidate := by
  have hskip : (span :: spans).find? (fun span => candidate.id < span.tokenEnd) =
      spans.find? fun span => candidate.id < span.tokenEnd :=
    List.find?_cons_of_neg (by simpa using hend)
  rw [locate, locate, hskip]

/-- The slot of a token. -/
theorem locate_probedSpans {token : Nat} {slot : Nat × Nat}
    (hslot : (probedSlots index selected)[token]? = some slot)
    (hfits : tokenBase + (probedSlots index selected).length ≤ uint32Max)
    (hid : candidate.id = tokenBase + token) :
    ∃ located, locate (probedSpans index selected tokenBase) candidate = .ok located ∧
      (located.listNo, located.offset) = slot := by
  induction selected generalizing tokenBase token with
  | nil => cases hslot
  | cons listNo rest ih =>
      let size := (index.lists listNo.toNat).logicalSize
      have hsplit : probedSlots index (listNo :: rest) =
          (List.range size).map (fun offset => (listNo.toNat, offset)) ++ probedSlots index rest :=
        List.flatMap_cons
      have hlength : ((List.range size).map fun offset => (listNo.toNat, offset)).length = size := by
        rw [List.length_map, List.length_range]
      rw [hsplit, List.length_append, hlength] at hfits
      rw [hsplit] at hslot
      rw [probedSpans]
      have hmax : uint32Max = 2 ^ 32 - 1 := rfl
      split
      next hempty =>
        have hnone : size = 0 := hempty
        rw [hnone, Nat.zero_add] at hfits
        rw [hnone] at hslot
        exact ih hslot hfits hid
      next =>
        by_cases htoken : token < size
        · rw [List.getElem?_append_left (by rwa [hlength]), List.getElem?_map,
            List.getElem?_range htoken, Option.map_some, Option.some_inj] at hslot
          refine ⟨_, locate_cons_of_lt _ (by rw [hid]; exact Nat.le_add_right _ _)
            (by rw [hid]; exact Nat.add_lt_add_left htoken _), ?_⟩
          rw [← hslot, Prod.mk.injEq]
          refine ⟨rfl, ?_⟩
          dsimp only
          rw [hid, Nat.add_sub_cancel_left]
          exact Nat.mod_eq_of_lt (by omega)
        · rw [List.getElem?_append_right (by rw [hlength]; omega), hlength] at hslot
          rw [locate_cons_of_le _ (by rw [hid]; exact Nat.add_le_add_left (Nat.not_lt.mp htoken) _)]
          exact ih hslot (by omega) (by rw [hid]; omega)

end Recast
