import Recast.Foundation.Ieee
import Recast.Foundation.Selection
import Recast.Storage.File

/-!
# Fuzzy rank partition

`find_fuzzy_rank_threshold` looks for a threshold with between `q_min` and
`q_max` rows below it, by sampling, and selects the exact rank when the samples
run out.
-/

namespace Recast

open Foundation

section

variable {E : Type} [Ieee E]

structure FuzzyRankThreshold (E : Type) where
  estimate : E
  id : ℕ
  outputSize : ℕ
  equalToKeep : ℕ

def fuzzyMedian3 (a b c : E) : E :=
  let (a, b) := if Ieee.lt b a then (b, a) else (a, b)
  if Ieee.lt b c then b else if Ieee.lt a c then c else a

def kBigPrime : ℕ := 6700417

/-- The values in the order of the sampling stride; the product wraps. -/
def sampleOrder (values : List E) : List E :=
  (List.range values.length).filterMap fun i => values[i * kBigPrime % 2 ^ 64 % values.length]?

def sampleFuzzyThreshold (values : List E) (lower upper : E) : E :=
  match (sampleOrder values).filter fun value => Ieee.lt lower value && Ieee.lt value upper with
  | [] => lower
  | a :: b :: c :: _ => fuzzyMedian3 a b c
  | a :: _ => a

def countFuzzyThreshold (values : List E) (threshold : E) : ℕ × ℕ :=
  (values.countP fun value => Ieee.lt value threshold,
    values.countP fun value => Ieee.beq value threshold)

/-- A threshold with the rows below it, the rows at it and the output size. -/
structure RankSplit (E : Type) where
  threshold : E
  less : ℕ
  equal : ℕ
  output : ℕ

/-- The search loop. -/
def searchThreshold (estimates : List E) (qMin qMax : ℕ) : ℕ → E → E → E → Option (RankSplit E)
  | 0, _, _, _ => none
  | iterations + 1, threshold, lower, upper =>
      let (less, equal) := countFuzzyThreshold estimates threshold
      let narrow (lower upper : E) : Option (RankSplit E) :=
        let next := sampleFuzzyThreshold estimates lower upper
        if Ieee.beq next lower then none
        else searchThreshold estimates qMin qMax iterations next lower upper
      if less ≤ qMin then
        if qMin ≤ less + equal then some ⟨threshold, less, equal, qMin⟩ else narrow threshold upper
      else if less ≤ qMax then some ⟨threshold, less, equal, less⟩
      else narrow lower threshold

/-- The selection of the exact rank. -/
def selectThreshold (estimates : List E) (first : E) (qMin : ℕ) : RankSplit E :=
  let threshold := (sortBy Ieee.lt estimates).getD (qMin - 1) first
  let (less, equal) := countFuzzyThreshold estimates threshold
  ⟨threshold, less, equal, qMin⟩

/-- The search from the median of three estimates, or the selection. -/
def splitRank (estimates : List E) (first : E) (qMin qMax : ℕ) : RankSplit E :=
  let count := estimates.length
  let found :=
    if 3 ≤ count then
      searchThreshold estimates qMin qMax 200
        (fuzzyMedian3 first (estimates.getD (count / 2) first) (estimates.getD (count - 1) first))
        Ieee.negInfinity Ieee.infinity
    else none
  found.getD (selectThreshold estimates first qMin)

def findFuzzyRankThreshold (estimates : List E) (ids : List ℕ) (qMin qMax : ℕ) :
    Except Error (FuzzyRankThreshold E) :=
  if qMin = 0 ∨ qMax < qMin ∨ estimates.length ≤ qMax then
    .error (.invalidArgument "invalid fuzzy rank partition input")
  else
    let split := splitRank estimates (estimates.headD Ieee.zero) qMin qMax
    if split.output < split.less ∨ split.equal < split.output - split.less then
      .error (.logic "fuzzy rank partition produced an invalid rank")
    else
      let equalToKeep := split.output - split.less
      let equalIds := ((estimates.zip ids).filter fun row => Ieee.beq row.1 split.threshold).map
        Prod.snd
      let thresholdId := (sortBy (fun a b => decide (a < b)) equalIds).getD (equalToKeep - 1) 0
      .ok ⟨split.threshold, if 0 < equalToKeep then thresholdId else 0, split.output, equalToKeep⟩

/-- Whether a compaction to the threshold keeps a row. -/
def FuzzyRankThreshold.keeps (threshold : FuzzyRankThreshold E) (estimate : E) (id : ℕ) : Bool :=
  Ieee.lt estimate threshold.estimate ||
    (decide (0 < threshold.equalToKeep) && Ieee.beq estimate threshold.estimate &&
      decide (id ≤ threshold.id))

end

section

variable {E K : Type} [Ieee E] [LinearOrder K] {key : E → K} {valid : E → Prop}

/-- A split with a number for its threshold and the right counts. -/
structure RankSplit.Fits (valid : E → Prop) (estimates : List E) (qMin qMax : ℕ)
    (split : RankSplit E) : Prop where
  threshold : valid split.threshold
  less : split.less = estimates.countP fun value => Ieee.lt value split.threshold
  equal : split.equal = estimates.countP fun value => Ieee.beq value split.threshold
  rank : split.less ≤ split.output ∧ split.output ≤ split.less + split.equal
  output : qMin ≤ split.output ∧ split.output ≤ qMax

theorem fuzzyMedian3_valid {a b c : E} (ha : valid a) (hb : valid b) (hc : valid c) :
    valid (fuzzyMedian3 a b c) := by
  unfold fuzzyMedian3
  split
  next low high h =>
    have hpair : valid low ∧ valid high := by
      split at h
      · cases h
        exact ⟨hb, ha⟩
      · cases h
        exact ⟨ha, hb⟩
    split
    · exact hpair.2
    · split
      · exact hc
      · exact hpair.1

theorem sampleFuzzyThreshold_valid {values : List E} (hvalues : ∀ value ∈ values, valid value)
    {lower : E} (hlower : valid lower) (upper : E) :
    valid (sampleFuzzyThreshold values lower upper) := by
  have hsample (value : E) (hvalue : value ∈ (sampleOrder values).filter fun value =>
      Ieee.lt lower value && Ieee.lt value upper) : valid value := by
    obtain ⟨i, -, hi⟩ := List.mem_filterMap.mp (List.mem_of_mem_filter hvalue)
    exact hvalues value (List.mem_of_getElem? hi)
  unfold sampleFuzzyThreshold
  split
  next => exact hlower
  next a b c rest h =>
    rw [h] at hsample
    exact fuzzyMedian3_valid (hsample a (by simp)) (hsample b (by simp)) (hsample c (by simp))
  next a rest _ h =>
    rw [h] at hsample
    exact hsample a (by simp)

theorem searchThreshold_fits {estimates : List E} (hestimates : ∀ value ∈ estimates, valid value)
    {qMin qMax : ℕ} (hq : qMin ≤ qMax) {iterations : ℕ} {threshold lower upper : E}
    (hthreshold : valid threshold) (hlower : valid lower) {split : RankSplit E}
    (h : searchThreshold estimates qMin qMax iterations threshold lower upper = some split) :
    split.Fits valid estimates qMin qMax := by
  induction iterations generalizing threshold lower upper with
  | zero => cases h
  | succ iterations ih =>
      have hnarrow {lower upper : E} (hlower : valid lower)
          (h : (if Ieee.beq (sampleFuzzyThreshold estimates lower upper) lower then none
            else searchThreshold estimates qMin qMax iterations
              (sampleFuzzyThreshold estimates lower upper) lower upper) = some split) :
          split.Fits valid estimates qMin qMax := by
        split at h
        · cases h
        · exact ih (sampleFuzzyThreshold_valid hestimates hlower upper) hlower h
      rw [searchThreshold] at h
      dsimp only [countFuzzyThreshold] at h
      split at h
      next hle =>
        split at h
        next hge =>
          cases h
          exact ⟨hthreshold, rfl, rfl, ⟨hle, hge⟩, ⟨le_rfl, hq⟩⟩
        next => exact hnarrow hthreshold h
      next hgt =>
        split at h
        next hle =>
          cases h
          exact ⟨hthreshold, rfl, rfl, ⟨le_rfl, Nat.le_add_right _ _⟩,
            ⟨(not_le.mp hgt).le, hle⟩⟩
        next => exact hnarrow hlower h

theorem lt_comparesBy (hordered : Ieee.OrderedBy key valid) :
    ComparesBy (Ieee.lt : E → E → Bool) key valid := fun _ _ hx hy => hordered.lt_iff hx hy

/-- What is counted below and at a threshold, in terms of the keys. -/
theorem countP_split (hordered : Ieee.OrderedBy key valid) {values : List E}
    (hvalues : ∀ value ∈ values, valid value) {threshold : E} (hthreshold : valid threshold) :
    (values.countP fun value => Ieee.lt value threshold) =
        values.countP (fun value => key value < key threshold) ∧
      (values.countP fun value => Ieee.lt value threshold) +
          (values.countP fun value => Ieee.beq value threshold) =
        values.countP fun value => key value ≤ key threshold := by
  constructor
  · refine List.countP_congr fun value hvalue => ?_
    rw [hordered.lt_iff (hvalues value hvalue) hthreshold, decide_eq_true_eq]
  · refine countP_add_countP (fun value hvalue hlt => ?_) fun value hvalue => ?_
    · have hlt := (hordered.lt_iff (hvalues value hvalue) hthreshold).mp hlt
      have hbeq := hordered.beq_iff (hvalues value hvalue) hthreshold
      exact Bool.eq_false_iff.mpr fun heq => hlt.ne (hbeq.mp heq)
    · apply Bool.eq_iff_iff.mpr
      rw [Bool.or_eq_true, hordered.lt_iff (hvalues value hvalue) hthreshold,
        hordered.beq_iff (hvalues value hvalue) hthreshold, decide_eq_true_eq]
      exact le_iff_lt_or_eq

theorem selectThreshold_fits (hordered : Ieee.OrderedBy key valid) {estimates : List E}
    (hestimates : ∀ value ∈ estimates, valid value) {first : E} {qMin qMax : ℕ} (hpos : 0 < qMin)
    (hq : qMin ≤ qMax) (hcount : qMax < estimates.length) :
    (selectThreshold estimates first qMin).Fits valid estimates qMin qMax := by
  have hperm := sortBy_perm Ieee.lt estimates
  have hlength := hperm.length_eq
  have hsorted := sortBy_sorted (lt_comparesBy hordered) hestimates
  have hplace : (sortBy Ieee.lt estimates)[qMin - 1]? =
      some ((sortBy Ieee.lt estimates).getD (qMin - 1) first) := by
    rw [List.getD_eq_getElem?_getD, List.getElem?_eq_getElem (by omega)]
    rfl
  have hthreshold := hestimates _ (hperm.subset (List.mem_of_getElem? hplace))
  have hrank := sorted_rank hsorted hplace
  obtain ⟨hless, hequal⟩ := countP_split hordered hestimates hthreshold
  rw [hperm.countP_eq, hperm.countP_eq] at hrank
  refine ⟨hthreshold, rfl, rfl, ⟨?_, ?_⟩, ⟨le_rfl, hq⟩⟩
  · change (estimates.countP fun value => Ieee.lt value _) ≤ qMin
    omega
  · change qMin ≤ (estimates.countP fun value => Ieee.lt value _) +
      estimates.countP fun value => Ieee.beq value _
    omega

/-- Whichever way the threshold is found, its counts allow the output size. -/
theorem splitRank_fits (hordered : Ieee.OrderedBy key valid) (hnegInfinity : valid Ieee.negInfinity)
    {estimates : List E} (hestimates : ∀ value ∈ estimates, valid value) {first : E}
    (hfirst : valid first) {qMin qMax : ℕ} (hpos : 0 < qMin) (hq : qMin ≤ qMax)
    (hcount : qMax < estimates.length) :
    (splitRank estimates first qMin qMax).Fits valid estimates qMin qMax := by
  have hgetD (i : ℕ) : valid (estimates.getD i first) := by
    rw [List.getD_eq_getElem?_getD]
    cases hi : estimates[i]? with
    | none => exact hfirst
    | some value => exact hestimates value (List.mem_of_getElem? hi)
  have hmedian : valid (fuzzyMedian3 first (estimates.getD (estimates.length / 2) first)
      (estimates.getD (estimates.length - 1) first)) :=
    fuzzyMedian3_valid hfirst (hgetD _) (hgetD _)
  have hselect : (selectThreshold estimates first qMin).Fits valid estimates qMin qMax :=
    selectThreshold_fits hordered hestimates hpos hq hcount
  unfold splitRank
  dsimp only
  split
  next =>
    cases hsearch : searchThreshold estimates qMin qMax 200
      (fuzzyMedian3 first (estimates.getD (estimates.length / 2) first)
        (estimates.getD (estimates.length - 1) first)) Ieee.negInfinity Ieee.infinity with
    | none => exact hselect
    | some split => exact searchThreshold_fits hestimates hq hmedian hnegInfinity hsearch
  next => exact hselect

/-! ## Rows -/

/-- The rank of a row: by estimate, then by ID. -/
def rankOf {α : Type} (key : E → K) (estimate : α → E) (id : α → ℕ) (row : α) : K ×ₗ ℕ :=
  toLex (key (estimate row), id row)

/-- Of distinct IDs, `n` are up to the one at place `n - 1`. -/
theorem countP_le_place {ids : List ℕ} (hnodup : ids.Nodup) {n : ℕ} (hpos : 0 < n)
    (hn : n ≤ ids.length) :
    ids.countP (fun id => id ≤ (sortBy (fun a b => decide (a < b)) ids).getD (n - 1) 0) = n := by
  have hcompare : ComparesBy (fun a b : ℕ => decide (a < b)) id fun _ => True :=
    fun a b _ _ => decide_eq_true_iff
  have hperm := sortBy_perm (fun a b : ℕ => decide (a < b)) ids
  have hlength := hperm.length_eq
  have hplace : (sortBy (fun a b : ℕ => decide (a < b)) ids)[n - 1]? =
      some ((sortBy (fun a b : ℕ => decide (a < b)) ids).getD (n - 1) 0) := by
    rw [List.getD_eq_getElem?_getD, List.getElem?_eq_getElem (by omega)]
    rfl
  generalize (sortBy (fun a b : ℕ => decide (a < b)) ids).getD (n - 1) 0 = last at hplace ⊢
  obtain ⟨hbelow, hupTo⟩ := sorted_rank (sortBy_sorted hcompare fun _ _ => trivial) hplace
  rw [hperm.countP_eq] at hbelow hupTo
  have hsplit : ids.countP (fun id => decide (id < last)) + ids.countP (fun id => id == last) =
      ids.countP fun id => id ≤ last := by
    refine countP_add_countP (fun id _ hlt => ?_) fun id _ => ?_
    · exact beq_eq_false_iff_ne.mpr (of_decide_eq_true hlt).ne
    · apply Bool.eq_iff_iff.mpr
      simp [le_iff_lt_or_eq]
  have honce : ids.countP (fun id => id == last) ≤ 1 := List.nodup_iff_count_le_one.mp hnodup last
  simp only [id_eq] at hbelow hupTo
  omega

variable {α : Type} {estimate : α → E} {id : α → ℕ} {rows : List α}

/-- Being kept is being below the threshold, or at it with an ID up to the last. -/
theorem keeps_iff (id : α → ℕ) (hordered : Ieee.OrderedBy key valid) {threshold : FuzzyRankThreshold E}
    (hthreshold : valid threshold.estimate) {row : α} (hrow : valid (estimate row)) :
    threshold.keeps (estimate row) (id row) = true ↔
      key (estimate row) < key threshold.estimate ∨
        0 < threshold.equalToKeep ∧ key (estimate row) = key threshold.estimate ∧
          id row ≤ threshold.id := by
  rw [FuzzyRankThreshold.keeps, Bool.or_eq_true, Bool.and_eq_true, Bool.and_eq_true,
    hordered.lt_iff hrow hthreshold, hordered.beq_iff hrow hthreshold, decide_eq_true_eq,
    decide_eq_true_eq, and_assoc]

/-- The kept rows rank below the others. -/
theorem keeps_down (hordered : Ieee.OrderedBy key valid) {threshold : FuzzyRankThreshold E}
    (hthreshold : valid threshold.estimate) (hrows : ∀ row ∈ rows, valid (estimate row)) :
    ∀ x ∈ rows, ∀ y ∈ rows, threshold.keeps (estimate x) (id x) = true →
      threshold.keeps (estimate y) (id y) = false →
      rankOf key estimate id x < rankOf key estimate id y := by
  intro x hx y hy hkept hdropped
  rw [keeps_iff id hordered hthreshold (hrows x hx)] at hkept
  have hy := mt (keeps_iff id hordered hthreshold (hrows y hy)).mpr
    (Bool.not_eq_true _ ▸ hdropped)
  rw [not_or, not_lt] at hy
  rw [rankOf, rankOf, Prod.Lex.toLex_lt_toLex]
  rcases hkept with hbelow | ⟨hsome, heq, hid⟩
  · exact .inl (hbelow.trans_le hy.1)
  · rcases hy.1.lt_or_eq with habove | hat
    · exact .inl (heq.trans_lt habove)
    · refine .inr ⟨heq.trans hat, ?_⟩
      by_contra hle
      exact hy.2 ⟨hsome, hat.symm, (not_lt.mp hle).trans hid⟩

/-- What is kept at the threshold is as many of the smallest IDs as asked for. -/
theorem countP_keeps (hids : (rows.map id).Nodup) {threshold : FuzzyRankThreshold E}
    (hequal : threshold.equalToKeep ≤
      rows.countP fun row => Ieee.beq (estimate row) threshold.estimate)
    (hlast : threshold.id = (sortBy (fun a b => decide (a < b))
      ((rows.filter fun row => Ieee.beq (estimate row) threshold.estimate).map id)).getD
        (threshold.equalToKeep - 1) 0 ∨ threshold.equalToKeep = 0) :
    (rows.countP fun row => decide (0 < threshold.equalToKeep) &&
      Ieee.beq (estimate row) threshold.estimate && decide (id row ≤ threshold.id)) =
        threshold.equalToKeep := by
  rcases Nat.eq_zero_or_pos threshold.equalToKeep with hnone | hsome
  · rw [hnone]
    exact List.countP_eq_zero.mpr fun row _ => by simp
  · have hlast := hlast.resolve_right hsome.ne'
    have hnodup : ((rows.filter fun row =>
        Ieee.beq (estimate row) threshold.estimate).map id).Nodup :=
      hids.sublist (List.filter_sublist.map id)
    have hcount := countP_le_place hnodup hsome (by
      rw [List.length_map, ← List.countP_eq_length_filter]
      exact hequal)
    rw [← hlast, List.countP_map, List.countP_filter] at hcount
    refine Eq.trans (List.countP_congr fun row _ => ?_) hcount
    simp [hsome, and_comm]

/-- The threshold is found, and what it keeps is the output size of smallest rows. -/
theorem findFuzzyRankThreshold_spec (hordered : Ieee.OrderedBy key valid)
    (hnegInfinity : valid Ieee.negInfinity) (hrows : ∀ row ∈ rows, valid (estimate row))
    (hids : (rows.map id).Nodup) {qMin qMax : ℕ} (hpos : 0 < qMin) (hq : qMin ≤ qMax)
    (hcount : qMax < rows.length) :
    ∃ threshold,
      findFuzzyRankThreshold (rows.map estimate) (rows.map id) qMin qMax = .ok threshold ∧
        valid threshold.estimate ∧ qMin ≤ threshold.outputSize ∧ threshold.outputSize ≤ qMax ∧
        Least (rankOf key estimate id) threshold.outputSize rows
          (rows.filter fun row => threshold.keeps (estimate row) (id row)) := by
  have hestimates : ∀ value ∈ rows.map estimate, valid value := by
    intro value hvalue
    obtain ⟨row, hrow, rfl⟩ := List.mem_map.mp hvalue
    exact hrows row hrow
  have hfirst : valid ((rows.map estimate).headD Ieee.zero) := by
    cases rows with
    | nil => simp at hcount
    | cons row rest => exact hrows row List.mem_cons_self
  have hfits := splitRank_fits hordered hnegInfinity hestimates hfirst hpos hq (by simpa using hcount)
  generalize hsplit : splitRank (rows.map estimate) ((rows.map estimate).headD Ieee.zero) qMin qMax =
    split at hfits
  obtain ⟨hthreshold, hless, hequal, ⟨hlow, hhigh⟩, houtput⟩ := hfits
  -- the IDs the code collects at the threshold are those of the rows tied with it
  have hequalIds : (((rows.map estimate).zip (rows.map id)).filter
        fun row => Ieee.beq row.1 split.threshold).map Prod.snd =
      (rows.filter fun row => Ieee.beq (estimate row) split.threshold).map id := by
    rw [List.zip_map', List.filter_map, List.map_map]
    rfl
  obtain ⟨threshold, hfind, hestimate, houtputSize, hequalToKeep, hlast⟩ :
      ∃ threshold : FuzzyRankThreshold E,
        findFuzzyRankThreshold (rows.map estimate) (rows.map id) qMin qMax = .ok threshold ∧
          threshold.estimate = split.threshold ∧ threshold.outputSize = split.output ∧
          threshold.equalToKeep = split.output - split.less ∧
          (threshold.id = (sortBy (fun a b => decide (a < b))
            ((rows.filter fun row => Ieee.beq (estimate row) split.threshold).map id)).getD
              (split.output - split.less - 1) 0 ∨ split.output - split.less = 0) := by
    rw [findFuzzyRankThreshold, if_neg (by simp; omega), hsplit]
    dsimp only
    rw [if_neg (by omega), hequalIds]
    refine ⟨_, rfl, rfl, rfl, rfl, ?_⟩
    rcases Nat.eq_zero_or_pos (split.output - split.less) with hnone | hsome
    · exact .inr hnone
    · exact .inl (if_pos hsome)
  rw [← hestimate] at hthreshold hless hequal hlast
  rw [← hequalToKeep] at hlast
  rw [List.countP_map] at hless hequal
  -- rows below the threshold and the ties it keeps are counted apart, and never overlap
  have hkept : rows.countP (fun row => threshold.keeps (estimate row) (id row)) =
      threshold.outputSize := by
    have hat := countP_keeps hids (by
      rw [hequalToKeep]
      change split.output - split.less ≤ rows.countP
        ((fun value => Ieee.beq value threshold.estimate) ∘ estimate)
      omega) hlast
    have hsum : rows.countP (fun row => Ieee.lt (estimate row) threshold.estimate) +
        (rows.countP fun row => decide (0 < threshold.equalToKeep) &&
          Ieee.beq (estimate row) threshold.estimate && decide (id row ≤ threshold.id)) =
        rows.countP fun row => threshold.keeps (estimate row) (id row) := by
      refine countP_add_countP (fun row hrow hlt => ?_) fun row _ => rfl
      have hlt := (hordered.lt_iff (hrows row hrow) hthreshold).mp hlt
      have hbeq := hordered.beq_iff (hrows row hrow) hthreshold
      rw [Bool.eq_false_iff.mpr fun heq => hlt.ne (hbeq.mp heq), Bool.and_false, Bool.false_and]
    change split.less = rows.countP fun row => Ieee.lt (estimate row) threshold.estimate at hless
    omega
  refine ⟨threshold, hfind, hthreshold, houtputSize ▸ houtput.1, houtputSize ▸ houtput.2, ?_⟩
  rw [← hkept]
  exact least_filter (keeps_down hordered hthreshold hrows)

end

/-- The order of rows on machine floats. -/
def rowBelow (x y : Float32 × ℕ) : Prop := x.1 < y.1 ∨ (x.1 == y.1) = true ∧ x.2 < y.2

/-- For all estimates that are numbers and all distinct IDs: the partition
returns, the rows it keeps are as many as it says, and they are the smallest. -/
theorem fuzzy_rank_exact {rows : List (Float32 × ℕ)}
    (hrows : ∀ row ∈ rows, row.1.isNaN = false) (hids : (rows.map Prod.snd).Nodup)
    {qMin qMax : ℕ} (hpos : 1 ≤ qMin) (hq : qMin ≤ qMax) (hcount : qMax < rows.length) :
    ∃ threshold,
      findFuzzyRankThreshold (rows.map Prod.fst) (rows.map Prod.snd) qMin qMax = .ok threshold ∧
        qMin ≤ threshold.outputSize ∧ threshold.outputSize ≤ qMax ∧
        (rows.filter fun row => threshold.keeps row.1 row.2).length = threshold.outputSize ∧
        ∀ x ∈ rows, ∀ y ∈ rows, threshold.keeps x.1 x.2 = true → threshold.keeps y.1 y.2 = false →
          rowBelow x y := by
  have hnegInfinity : (Ieee.negInfinity : Float32).isNaN = false := by decide +kernel
  obtain ⟨threshold, hfind, hthreshold, hlow, hhigh, hleast⟩ :=
    findFuzzyRankThreshold_spec float32_orderedBy hnegInfinity hrows hids hpos hq hcount
  refine ⟨threshold, hfind, hlow, hhigh, hleast.length, fun x hx y hy hkept hdropped => ?_⟩
  have hrank : rankOf (fun x : Float32 => floatKey x.toModel.unpack) Prod.fst Prod.snd x <
      rankOf (fun x : Float32 => floatKey x.toModel.unpack) Prod.fst Prod.snd y :=
    keeps_down float32_orderedBy hthreshold hrows x hx y hy hkept hdropped
  rw [rankOf, rankOf, Prod.Lex.toLex_lt_toLex] at hrank
  rcases hrank with hlt | ⟨heq, hid⟩
  · have hbelow := (float32_orderedBy.lt_iff (hrows x hx) (hrows y hy)).mpr hlt
    exact .inl (of_decide_eq_true hbelow)
  · exact .inr ⟨(float32_orderedBy.beq_iff (hrows x hx) (hrows y hy)).mpr heq, hid⟩

/-- Both zeros, a one and an infinity, two or three of which are to stay. -/
theorem fuzzy_rank_exact_zeros :
    ∃ threshold, findFuzzyRankThreshold
      [Float32.ofNat 1, Float32.ofNat 1 / Float32.ofNat 0, -Float32.ofNat 0, Float32.ofNat 0]
      [7, 5, 9, 4] 2 3 = .ok threshold ∧ threshold.outputSize ≤ 3 := by
  obtain ⟨threshold, hfind, -, hhigh, -⟩ := @fuzzy_rank_exact
    [(Float32.ofNat 1, 7), (Float32.ofNat 1 / Float32.ofNat 0, 5), (-Float32.ofNat 0, 9),
      (Float32.ofNat 0, 4)] (by decide +kernel) (by decide) 2 3 (by decide) (by decide) (by decide)
  exact ⟨threshold, hfind, hhigh⟩

end Recast
