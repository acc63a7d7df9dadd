import Recast.Foundation.FloatOrder
import Recast.Scan.SelectionLaws

/-!
# Rank keys

The exact shrink of the reservoir works on 64-bit keys: the estimate as an
ordered integer above the ID. The keys order as the rows, and the key of the
last row to keep gives back its estimate up to the sign of zero.
-/

namespace Recast

open Foundation

/-- `ordered_float_key`. -/
def orderedFloatKey (value : Float32) : UInt32 :=
  let bits := (if value == 0 then (0 : Float32) else value).toBits
  if bits &&& 0x80000000 ≠ 0 then ~~~bits else bits ^^^ 0x80000000

/-- `float_from_ordered_key`. -/
def floatFromOrderedKey (ordered : UInt32) : Float32 :=
  Float32.ofBits (if ordered &&& 0x80000000 ≠ 0 then ordered ^^^ 0x80000000 else ~~~ordered)

/-- `rank_key`. -/
def rankKey (estimate : Float32) (id : UInt32) : UInt64 :=
  ((orderedFloatKey estimate).toUInt64 <<< 32) ||| id.toUInt64

namespace FusedIntervalAccumulator

/-- The key of a row. IDs are 32-bit. -/
def rowKey (row : DistanceEstimate Float32) : UInt64 :=
  rankKey row.estimatedDistance (UInt32.ofNat row.id)

/-- `shrink_shortlist` on machine floats: the keys are partitioned instead of
the rows. -/
def shrinkShortlistByKeys (keep : ℕ) (accumulator : FusedIntervalAccumulator Float32) :
    FusedIntervalAccumulator Float32 :=
  if accumulator.reservoir.length ≤ keep then accumulator
  else match (sortBy (fun x y => decide (x < y)) (accumulator.reservoir.map rowKey))[keep - 1]? with
    | none => accumulator
    | some thresholdKey =>
        let estimate := floatFromOrderedKey (thresholdKey >>> 32).toUInt32
        let id := thresholdKey.toUInt32.toNat
        let compacted := { accumulator with
          admissionThreshold := some (estimate, id) }.compactThreshold
            fun row => Ieee.lt row.estimatedDistance estimate ||
              (Ieee.beq row.estimatedDistance estimate && decide (row.id ≤ id))
        { compacted with reservoir := compacted.reservoir.take keep }

end FusedIntervalAccumulator

/-! ### Patterns -/

section Patterns

variable (bits : UInt32)

theorem signBit_iff : bits &&& 0x80000000 ≠ 0 ↔ 2 ^ 31 ≤ bits.toNat := by
  have hlt := bits.toNat_lt
  have hhigh : (bits &&& 0x80000000).toNat / 2 ^ 31 = bits.toNat / 2 ^ 31 &&& 1 := by
    rw [UInt32.toNat_and, Nat.and_div_two_pow]
    rfl
  have hlow : (bits &&& 0x80000000).toNat % 2 ^ 31 = 0 := by
    rw [UInt32.toNat_and, Nat.and_mod_two_pow]
    exact Nat.and_zero _
  rw [Nat.and_one_is_mod] at hhigh
  rw [ne_eq, ← UInt32.toNat_inj]
  change ¬(bits &&& 0x80000000).toNat = 0 ↔ _
  omega

theorem toNat_flipSign : (bits ^^^ 0x80000000).toNat =
    if bits.toNat < 2 ^ 31 then bits.toNat + 2 ^ 31 else bits.toNat - 2 ^ 31 := by
  have hlt := bits.toNat_lt
  have hhigh : (bits ^^^ 0x80000000).toNat / 2 ^ 31 = bits.toNat / 2 ^ 31 ^^^ 1 := by
    rw [UInt32.toNat_xor, Nat.xor_div_two_pow]
    rfl
  have hlow : (bits ^^^ 0x80000000).toNat % 2 ^ 31 = bits.toNat % 2 ^ 31 := by
    rw [UInt32.toNat_xor, Nat.xor_mod_two_pow]
    exact Nat.xor_zero _
  split
  next h =>
    have hzero : bits.toNat / 2 ^ 31 = 0 := by omega
    rw [hzero] at hhigh
    change _ = 1 at hhigh
    omega
  next h =>
    have hone : bits.toNat / 2 ^ 31 = 1 := by omega
    rw [hone] at hhigh
    change _ = 0 at hhigh
    omega

theorem toNat_complement : (~~~bits).toNat = 2 ^ 32 - 1 - bits.toNat := by
  rw [UInt32.toNat_not]
  rfl

end Patterns

/-! ### Keys -/

section Keys

variable {a b : Float32}

theorem float32_zero_isNaN : (0 : Float32).isNaN = false := by decide +kernel

theorem signedMagnitude_zero : signedMagnitude (0 : Float32).toBits = 0 := by decide +kernel

/-- The key numbers the signed magnitudes from 2^31 on; there is no -0. -/
theorem toNat_orderedFloatKey (ha : a.isNaN = false) :
    ((orderedFloatKey a).toNat : ℤ) =
      if 0 ≤ signedMagnitude a.toBits then 2 ^ 31 + signedMagnitude a.toBits
      else 2 ^ 31 - 1 + signedMagnitude a.toBits := by
  have hzero := @float32_beq_iff_signedMagnitude a 0 ha float32_zero_isNaN
  rw [signedMagnitude_zero] at hzero
  have hsame : signedMagnitude (if a == 0 then (0 : Float32) else a).toBits =
      signedMagnitude a.toBits ∧
      (signedMagnitude a.toBits = 0 → (if a == 0 then (0 : Float32) else a).toBits.toNat < 2 ^ 31) := by
    split
    next h => exact ⟨signedMagnitude_zero.trans (hzero.mp h).symm, fun _ => by decide +kernel⟩
    next h => exact ⟨rfl, fun heq => absurd (hzero.mpr heq) h⟩
  rw [orderedFloatKey]
  generalize (if a == 0 then (0 : Float32) else a).toBits = bits at hsame ⊢
  obtain ⟨hmagnitude, hpositive⟩ := hsame
  rw [← hmagnitude] at hpositive ⊢
  have hlt := bits.toNat_lt
  have hsign := signBit_iff bits
  by_cases hnegative : 2 ^ 31 ≤ bits.toNat
  · rw [if_pos (hsign.mpr hnegative), toNat_complement]
    have hvalue : signedMagnitude bits = 2 ^ 31 - (bits.toNat : ℤ) := by
      rw [signedMagnitude, if_neg (by omega)]
    have hne : signedMagnitude bits ≠ 0 := fun h => absurd (hpositive h) (by omega)
    rw [if_neg (by omega), hvalue]
    omega
  · rw [if_neg (fun h => hnegative (hsign.mp h)), toNat_flipSign, if_pos (by omega)]
    have hvalue : signedMagnitude bits = (bits.toNat : ℤ) := by
      rw [signedMagnitude, if_pos (by omega)]
    rw [if_pos (by omega), hvalue]
    omega

theorem orderedFloatKey_lt_iff (ha : a.isNaN = false) (hb : b.isNaN = false) :
    orderedFloatKey a < orderedFloatKey b ↔ a < b := by
  have hkeya := toNat_orderedFloatKey ha
  have hkeyb := toNat_orderedFloatKey hb
  rw [float32_lt_iff_signedMagnitude ha hb, UInt32.lt_iff_toNat_lt]
  split at hkeya <;> split at hkeyb <;> omega

theorem orderedFloatKey_eq_iff (ha : a.isNaN = false) (hb : b.isNaN = false) :
    orderedFloatKey a = orderedFloatKey b ↔ (a == b) = true := by
  have hkeya := toNat_orderedFloatKey ha
  have hkeyb := toNat_orderedFloatKey hb
  rw [float32_beq_iff_signedMagnitude ha hb, ← UInt32.toNat_inj]
  split at hkeya <;> split at hkeyb <;> omega

/-- A decoded key compares equal to the value it was made from. -/
theorem floatFromOrderedKey_orderedFloatKey (ha : a.isNaN = false) :
    (floatFromOrderedKey (orderedFloatKey a)).isNaN = false ∧
      (floatFromOrderedKey (orderedFloatKey a) == a) = true := by
  have hkey := toNat_orderedFloatKey ha
  have hbound := signedMagnitude_le ha
  have hsign := signBit_iff (orderedFloatKey a)
  have hmagnitude : signedMagnitude
      (if orderedFloatKey a &&& 0x80000000 ≠ 0 then orderedFloatKey a ^^^ 0x80000000
      else ~~~orderedFloatKey a) = signedMagnitude a.toBits := by
    have hflip := toNat_flipSign (orderedFloatKey a)
    have hcomplement := toNat_complement (orderedFloatKey a)
    have hlt := (orderedFloatKey a).toNat_lt
    rw [infinityMagnitude] at hbound
    by_cases hhigh : 2 ^ 31 ≤ (orderedFloatKey a).toNat
    · rw [if_pos (hsign.mpr hhigh), signedMagnitude, hflip]
      split at hkey
      next => rw [if_neg (by omega : ¬(orderedFloatKey a).toNat < 2 ^ 31), if_pos (by omega)]; omega
      next => omega
    · rw [if_neg (fun h => hhigh (hsign.mp h)), signedMagnitude, hcomplement]
      split at hkey
      next => omega
      next => rw [if_neg (by omega)]; omega
  rw [floatFromOrderedKey]
  rw [← hmagnitude] at hbound
  have hnumber := isNaN_ofBits_number hbound
  refine ⟨hnumber, ?_⟩
  rw [float32_beq_iff_signedMagnitude hnumber ha, toBits_ofBits_number hbound, hmagnitude]

variable {i j : UInt32}

theorem toNat_rankKey (a : Float32) (i : UInt32) :
    (rankKey a i).toNat = (orderedFloatKey a).toNat * 2 ^ 32 + i.toNat := by
  have hkey := (orderedFloatKey a).toNat_lt
  have hid := i.toNat_lt
  rw [rankKey, UInt64.toNat_or, UInt64.toNat_shiftLeft, UInt32.toNat_toUInt64, UInt32.toNat_toUInt64]
  change (orderedFloatKey a).toNat <<< 32 % 2 ^ 64 ||| i.toNat = _
  have hshift : (orderedFloatKey a).toNat <<< 32 % 2 ^ 64 = (orderedFloatKey a).toNat <<< 32 := by
    rw [Nat.shiftLeft_eq]
    omega
  rw [hshift, ← Nat.shiftLeft_add_eq_or_of_lt hid, Nat.shiftLeft_eq]

theorem rankKey_estimate (a : Float32) (i : UInt32) :
    (rankKey a i >>> 32).toUInt32 = orderedFloatKey a := by
  have hkey := (orderedFloatKey a).toNat_lt
  have hid := i.toNat_lt
  rw [← UInt32.toNat_inj, UInt64.toNat_toUInt32, UInt64.toNat_shiftRight, toNat_rankKey]
  change ((orderedFloatKey a).toNat * 2 ^ 32 + i.toNat) >>> 32 % 2 ^ 32 = _
  rw [Nat.shiftRight_eq_div_pow]
  omega

theorem rankKey_id (a : Float32) (i : UInt32) : (rankKey a i).toUInt32 = i := by
  have hid := i.toNat_lt
  rw [← UInt32.toNat_inj, UInt64.toNat_toUInt32, toNat_rankKey]
  omega

theorem rankKey_lt_iff (ha : a.isNaN = false) (hb : b.isNaN = false) :
    rankKey a i < rankKey b j ↔ a < b ∨ (a == b) = true ∧ i < j := by
  have hi := i.toNat_lt
  have hj := j.toNat_lt
  rw [← orderedFloatKey_lt_iff ha hb, ← orderedFloatKey_eq_iff ha hb, UInt64.lt_iff_toNat_lt,
    UInt32.lt_iff_toNat_lt, UInt32.lt_iff_toNat_lt, ← UInt32.toNat_inj, toNat_rankKey, toNat_rankKey]
  omega

end Keys

namespace FusedIntervalAccumulator

variable {x y : DistanceEstimate Float32}

theorem toNat_rowId (hx : x.id < 2 ^ 32) : (UInt32.ofNat x.id).toNat = x.id := by
  rw [UInt32.toNat_ofNat', Nat.mod_eq_of_lt hx]

/-- Keys order as the rows they are made from. -/
theorem rowKey_lt_iff (hx : x.estimatedDistance.isNaN = false)
    (hy : y.estimatedDistance.isNaN = false) (hidx : x.id < 2 ^ 32) (hidy : y.id < 2 ^ 32) :
    rowKey x < rowKey y ↔ rankLess x y = true := by
  rw [rowKey, rowKey, rankKey_lt_iff hx hy, UInt32.lt_iff_toNat_lt, toNat_rowId hidx,
    toNat_rowId hidy, rankLess, Bool.or_eq_true, Bool.and_eq_true, decide_eq_true_eq]
  exact or_congr decide_eq_true_iff.symm Iff.rfl

theorem rowKey_id (hx : x.id < 2 ^ 32) : (rowKey x).toUInt32.toNat = x.id := by
  rw [rowKey, rankKey_id, toNat_rowId hx]

/-- The test against the decoded threshold is the order of the keys. -/
theorem rowKey_le_iff {last : DistanceEstimate Float32} (hx : x.estimatedDistance.isNaN = false)
    (hlast : last.estimatedDistance.isNaN = false) (hidx : x.id < 2 ^ 32)
    (hidlast : last.id < 2 ^ 32) :
    (Ieee.lt x.estimatedDistance (floatFromOrderedKey (rowKey last >>> 32).toUInt32) ||
        (Ieee.beq x.estimatedDistance (floatFromOrderedKey (rowKey last >>> 32).toUInt32) &&
          decide (x.id ≤ (rowKey last).toUInt32.toNat))) = true ↔
      (rowKey x).toNat ≤ (rowKey last).toNat := by
  obtain ⟨hnumber, hsame⟩ := floatFromOrderedKey_orderedFloatKey hlast
  have hdecoded : (rowKey last >>> 32).toUInt32 = orderedFloatKey last.estimatedDistance :=
    rankKey_estimate _ _
  rw [float32_beq_iff_signedMagnitude hnumber hlast] at hsame
  have hkeys : (rowKey x).toNat ≤ (rowKey last).toNat ↔ ¬rankLess last x = true := by
    rw [← rowKey_lt_iff hlast hx hidlast hidx, UInt64.lt_iff_toNat_lt, not_lt]
  rw [hdecoded, rowKey_id hidlast, hkeys, rankLess, Bool.or_eq_true, Bool.and_eq_true,
    decide_eq_true_eq, Bool.or_eq_true, Bool.and_eq_true, decide_eq_true_eq]
  change (decide (_ < _) = true ∨ (_ == _) = true ∧ _) ↔
    ¬(decide (_ < _) = true ∨ (_ == _) = true ∧ _)
  rw [decide_eq_true_eq, decide_eq_true_eq, float32_lt_iff_signedMagnitude hx hnumber,
    float32_beq_iff_signedMagnitude hx hnumber, float32_lt_iff_signedMagnitude hlast hx,
    float32_beq_iff_signedMagnitude hlast hx, hsame]
  omega

/-- The shrink by keys keeps the rows of the least keys. -/
theorem shrinkShortlistByKeys_least {accumulator : FusedIntervalAccumulator Float32} {keep : ℕ}
    (hkeep : 0 < keep)
    (hestimates : ∀ row ∈ accumulator.reservoir, row.estimatedDistance.isNaN = false)
    (h32 : ∀ row ∈ accumulator.reservoir, row.id < 2 ^ 32)
    (hids : (accumulator.reservoir.map (·.id)).Nodup) :
    (accumulator.shrinkShortlistByKeys keep).reservoir.Sublist accumulator.reservoir ∧
      Least (fun row => (rowKey row).toNat) (min keep accumulator.reservoir.length)
        accumulator.reservoir (accumulator.shrinkShortlistByKeys keep).reservoir := by
  unfold FusedIntervalAccumulator.shrinkShortlistByKeys
  split
  next hshort =>
    refine ⟨List.Sublist.refl _, (Nat.min_eq_right hshort).symm, [], ?_, by simp⟩
    rw [List.append_nil]
  next hlong =>
    let keys := accumulator.reservoir.map rowKey
    have hcompares : ComparesBy (fun x y : UInt64 => decide (x < y)) UInt64.toNat fun _ => True :=
      fun x y _ _ => decide_eq_true_iff.trans UInt64.lt_iff_toNat_lt
    have hperm := sortBy_perm (fun x y : UInt64 => decide (x < y)) keys
    have hlength : (sortBy (fun x y : UInt64 => decide (x < y)) keys).length =
        accumulator.reservoir.length := hperm.length_eq.trans (List.length_map _)
    have hplace : keep - 1 < (sortBy (fun x y : UInt64 => decide (x < y)) keys).length := by omega
    rw [List.getElem?_eq_getElem hplace]
    obtain ⟨last, hlast, hkey⟩ := List.mem_map.mp (hperm.subset (List.getElem_mem hplace))
    obtain ⟨hbelow, hupTo⟩ := sorted_rank (sortBy_sorted hcompares fun _ _ => trivial)
      (List.getElem?_eq_getElem hplace)
    rw [hperm.countP_eq, List.countP_map, ← hkey] at hbelow hupTo
    rw [← hkey]
    dsimp only
    rw [compactThreshold_reservoir]
    have honce : accumulator.reservoir.countP
        (fun row => (rowKey row).toNat = (rowKey last).toNat) ≤ 1 := by
      have hcount := List.nodup_iff_count_le_one.mp hids last.id
      rw [List.count, List.countP_map] at hcount
      refine le_trans (List.countP_mono_left fun row hrow heq => ?_) hcount
      have heq := UInt64.toNat_inj.mp (of_decide_eq_true heq)
      apply beq_iff_eq.mpr
      change row.id = last.id
      rw [← rowKey_id (h32 row hrow), heq, rowKey_id (h32 last hlast)]
    have hleast := @least_upTo _ _ _ (fun row => (rowKey row).toNat) _ _ _ _
      (fun row hrow => rowKey_le_iff (hestimates row hrow) (hestimates last hlast) (h32 row hrow)
        (h32 last hlast)) hbelow hupTo honce hkeep
    rw [List.take_of_length_le hleast.length.le, Nat.min_eq_left (by omega)]
    exact ⟨List.filter_sublist, hleast⟩

/-- The collector's own test against the row of the last rank is the order of the keys. -/
theorem rankLe_iff {last : DistanceEstimate Float32} (hx : x.estimatedDistance.isNaN = false)
    (hlast : last.estimatedDistance.isNaN = false) (hidx : x.id < 2 ^ 32)
    (hidlast : last.id < 2 ^ 32) :
    (Ieee.lt x.estimatedDistance last.estimatedDistance ||
        (Ieee.beq x.estimatedDistance last.estimatedDistance && decide (x.id ≤ last.id))) = true ↔
      (rowKey x).toNat ≤ (rowKey last).toNat := by
  have hkeys : (rowKey x).toNat ≤ (rowKey last).toNat ↔ ¬rankLess last x = true := by
    rw [← rowKey_lt_iff hlast hx hidlast hidx, UInt64.lt_iff_toNat_lt, not_lt]
  rw [hkeys, rankLess, Bool.or_eq_true, Bool.and_eq_true, decide_eq_true_eq, Bool.or_eq_true,
    Bool.and_eq_true, decide_eq_true_eq]
  change (decide (_ < _) = true ∨ (_ == _) = true ∧ _) ↔
    ¬(decide (_ < _) = true ∨ (_ == _) = true ∧ _)
  rw [decide_eq_true_eq, decide_eq_true_eq, float32_lt_iff_signedMagnitude hx hlast,
    float32_beq_iff_signedMagnitude hx hlast, float32_lt_iff_signedMagnitude hlast hx,
    float32_beq_iff_signedMagnitude hlast hx]
  omega

/-- Sorting the keys is sorting the rows. -/
theorem sortBy_rowKey {rows : List (DistanceEstimate Float32)}
    (hestimates : ∀ row ∈ rows, row.estimatedDistance.isNaN = false)
    (h32 : ∀ row ∈ rows, row.id < 2 ^ 32) :
    sortBy (fun x y : UInt64 => decide (x < y)) (rows.map rowKey) =
      (sortBy rankLess rows).map rowKey := by
  have hkeys : ComparesBy (fun x y : UInt64 => decide (x < y)) UInt64.toNat fun _ => True :=
    fun x y _ _ => decide_eq_true_iff.trans UInt64.lt_iff_toNat_lt
  have hrows : ComparesBy rankLess (fun row => (rowKey row).toNat)
      fun row => row.estimatedDistance.isNaN = false ∧ row.id < 2 ^ 32 :=
    fun x y hx hy => (rowKey_lt_iff hx.1 hy.1 hx.2 hy.2).symm.trans UInt64.lt_iff_toNat_lt
  refine sortBy_of_perm_sorted hkeys ((sortBy_perm rankLess rows).symm.map rowKey)
    (fun _ _ => trivial) (List.pairwise_map.mpr ?_) fun x _ y _ => UInt64.toNat_inj.mp
  exact sortBy_sorted hrows fun row hrow => ⟨hestimates row hrow, h32 row hrow⟩

/-- The shrink by keys keeps the rows that the collector's own shrink keeps. -/
theorem shrinkShortlistByKeys_reservoir {accumulator : FusedIntervalAccumulator Float32}
    (keep : ℕ) (hestimates : ∀ row ∈ accumulator.reservoir, row.estimatedDistance.isNaN = false)
    (h32 : ∀ row ∈ accumulator.reservoir, row.id < 2 ^ 32) :
    (accumulator.shrinkShortlistByKeys keep).reservoir =
      (accumulator.shrinkShortlist keep).reservoir := by
  unfold FusedIntervalAccumulator.shrinkShortlistByKeys FusedIntervalAccumulator.shrinkShortlist
  split
  next => rfl
  next =>
    rw [sortBy_rowKey hestimates h32, List.getElem?_map]
    cases hlast : (sortBy rankLess accumulator.reservoir)[keep - 1]? with
    | none => rfl
    | some last =>
        have hmem := (sortBy_perm rankLess accumulator.reservoir).subset (List.mem_of_getElem? hlast)
        have hlastNumber := hestimates last hmem
        rw [Option.map_some]
        dsimp only
        rw [compactThreshold_reservoir, compactThreshold_reservoir]
        dsimp only
        congr 1
        refine List.filter_congr fun row hrow => Bool.eq_iff_iff.mpr ?_
        exact (rowKey_le_iff (hestimates row hrow) hlastNumber (h32 row hrow) (h32 last hmem)).trans
          (rankLe_iff (hestimates row hrow) hlastNumber (h32 row hrow) (h32 last hmem)).symm

end FusedIntervalAccumulator

/-- Rank keys embed the order of the rows, and the exact shrink keeps the
smallest rows by estimate and ID. -/
theorem rank_keys_embed_order :
    (∀ (a b : Float32) (i j : UInt32), a.isNaN = false → b.isNaN = false →
      (rankKey a i < rankKey b j ↔ a < b ∨ (a == b) = true ∧ i < j)) ∧
    (∀ (a : Float32) (i : UInt32), a.isNaN = false →
      (floatFromOrderedKey (rankKey a i >>> 32).toUInt32 == a) = true ∧
        (rankKey a i).toUInt32 = i) ∧
    ∀ (accumulator : FusedIntervalAccumulator Float32) (keep : ℕ), 0 < keep →
      (∀ row ∈ accumulator.reservoir, row.estimatedDistance.isNaN = false) →
      (∀ row ∈ accumulator.reservoir, row.id < 2 ^ 32) →
      (accumulator.reservoir.map (·.id)).Nodup →
      let kept := (accumulator.shrinkShortlistByKeys keep).reservoir
      kept.length = min keep accumulator.reservoir.length ∧ kept.Sublist accumulator.reservoir ∧
        ∀ x ∈ kept, ∀ y ∈ accumulator.reservoir, y ∉ kept →
          x.estimatedDistance < y.estimatedDistance ∨
            (x.estimatedDistance == y.estimatedDistance) = true ∧ x.id < y.id := by
  refine ⟨fun a b i j ha hb => rankKey_lt_iff ha hb, fun a i ha => ⟨?_, rankKey_id a i⟩, ?_⟩
  · rw [rankKey_estimate]
    exact (floatFromOrderedKey_orderedFloatKey ha).2
  · intro accumulator keep hkeep hestimates h32 hids
    obtain ⟨hsublist, hleast⟩ :=
      FusedIntervalAccumulator.shrinkShortlistByKeys_least hkeep hestimates h32 hids
    refine ⟨hleast.length, hsublist, fun x hx y hy hdropped => ?_⟩
    obtain ⟨rest, hperm, hbelow⟩ := hleast.rest
    have hrest : y ∈ rest :=
      (List.mem_append.mp (hperm.symm.subset hy)).resolve_left hdropped
    have hx' := hsublist.subset hx
    have hlt := (FusedIntervalAccumulator.rowKey_lt_iff (hestimates x hx') (hestimates y hy)
      (h32 x hx') (h32 y hy)).mp (UInt64.lt_iff_toNat_lt.mpr (hbelow x hx y hrest))
    rw [FusedIntervalAccumulator.rankLess, Bool.or_eq_true, Bool.and_eq_true,
      decide_eq_true_eq] at hlt
    exact hlt.imp of_decide_eq_true id

/-- Six rows, two of them with zeros of either sign, of which the least four stay. -/
def signedZeros : FusedIntervalAccumulator Float32 where
  avx512 := false
  topk := 2
  zScore := 1
  maxCandidates := 4
  seen := 6
  reservoirCapacity := 8
  smallestUppers := []
  planeLength := 24
  reservoir := [⟨9, 2.5, 1⟩, ⟨7, 0, 1⟩, ⟨1, -1.5, 1⟩, ⟨4, 2.5, 1⟩, ⟨3, Float32.ofBits 0x80000000, 1⟩,
    ⟨2, Ieee.infinity, 1⟩]
  admissionThreshold := none
  writes := []
  failure := none

theorem rank_keys_embed_order_zeros :
    rankKey (Float32.ofBits 0x80000000) 3 < rankKey 0 7 ∧
      (floatFromOrderedKey (rankKey (Float32.ofBits 0x80000000) 3 >>> 32).toUInt32 ==
        Float32.ofBits 0x80000000) = true ∧
      let kept := (signedZeros.shrinkShortlistByKeys 4).reservoir
      kept.map (·.id) = [7, 1, 4, 3] ∧
        ∀ x ∈ kept, ∀ y ∈ signedZeros.reservoir, y ∉ kept →
          x.estimatedDistance < y.estimatedDistance ∨
            (x.estimatedDistance == y.estimatedDistance) = true ∧ x.id < y.id := by
  have hnumber : (Float32.ofBits 0x80000000).isNaN = false := by decide +kernel
  have hequal : (Float32.ofBits 0x80000000 == 0) = true := by decide +kernel
  obtain ⟨horder, hdecode, hshrink⟩ := rank_keys_embed_order
  obtain ⟨-, -, hleast⟩ := hshrink signedZeros 4 (by decide) (by decide +kernel) (by decide)
    (by decide)
  exact ⟨(horder _ _ 3 7 hnumber float32_zero_isNaN).mpr (.inr ⟨hequal, by decide⟩),
    (hdecode _ 3 hnumber).1, by decide +kernel, hleast⟩

end Recast
