import Recast.Model.Trained
import Mathlib.Data.List.Induction
import Mathlib.Data.Rat.Defs
import Mathlib.Algebra.Order.Ring.Rat

/-!
# Training one object several times

A training call overwrites the learned parts stage by stage and sets `trained`
last, but does not reset it first. What an object reports as trained is of one
completed call as long as no call on a trained object throws in a stage.
-/

namespace Recast

open Foundation

theorem RecastQuantizer.create_untrained {F K : Type} [Zero F] [One F] {faiss : Faiss F}
    {config : QuantizerConfig} {quantizer : RecastQuantizer F K}
    (hcreate : RecastQuantizer.create faiss config = .ok quantizer) : quantizer.trained = false := by
  simp only [RecastQuantizer.create, bind_eq_ok] at hcreate
  obtain ⟨-, -, direction, -, hcreate⟩ := hcreate
  cases hcreate
  rfl

section

variable {F K : Type}
variable [Zero F] [One F] [Add F] [Sub F] [Mul F] [Div F] [NatCast F]
variable [LT F] [DecidableLT F] [LE F] [DecidableLE F]
variable [Zero K] [One K] [Add K] [Sub K] [Mul K] [Div K] [Neg K] [NatCast K]
variable [LT K] [DecidableLT K] [LE K] [DecidableLE K] [BEq K]
variable {numerics : Numerics F K} {faiss : Faiss F}
variable {quantizer : RecastQuantizer F K} {rows : List (List F)}

/-- One training call after the other, completed or not. -/
def RecastQuantizer.trainAll (numerics : Numerics F K) (faiss : Faiss F)
    (quantizer : RecastQuantizer F K) (calls : List (List (List F))) : RecastQuantizer F K :=
  calls.foldl (fun quantizer rows => (quantizer.train numerics faiss rows).1) quantizer

/-- What training learns. -/
structure LearnedParts (F K : Type) where
  mean : List F
  rotation : Option (LinearTransform F)
  direction : DirectionQuantizer F K
  normRange : F × F
  scaleRange : F × F

/-- The learned parts of an object. -/
def RecastQuantizer.learnedParts (quantizer : RecastQuantizer F K) : LearnedParts F K where
  mean := quantizer.mean
  rotation := quantizer.rotation
  direction := quantizer.direction
  normRange := (quantizer.normMax, quantizer.normStep)
  scaleRange := (quantizer.scaleMax, quantizer.scaleStep)

/-- When the object is trained, its learned parts are those that one completed
call of the sequence left. -/
def FromOneCall (numerics : Numerics F K) (faiss : Faiss F) (start : RecastQuantizer F K)
    (calls : List (List (List F))) : Prop :=
  (start.trainAll numerics faiss calls).trained = true →
    ∃ earlier rows later, calls = earlier ++ rows :: later ∧
      ((start.trainAll numerics faiss earlier).train numerics faiss rows).2 = none ∧
      (start.trainAll numerics faiss calls).learnedParts =
        ((start.trainAll numerics faiss earlier).train numerics faiss rows).1.learnedParts

/-- The object when stage 2 starts to learn the transform. -/
def RecastQuantizer.started (numerics : Numerics F K) (faiss : Faiss F)
    (quantizer : RecastQuantizer F K) (rows : List (List F)) : RecastQuantizer F K :=
  { quantizer with
    mean := learnMean quantizer.config rows
    normMax := largestNorm
      ((splitRows numerics faiss (learnMean quantizer.config rows) rows).map Prod.snd) }

/-- Neither the transform nor the direction codebooks throw on the rows. -/
def StagesComplete (numerics : Numerics F K) (faiss : Faiss F) (quantizer : RecastQuantizer F K)
    (rows : List (List F)) : Prop :=
  ∃ rotated direction,
    (quantizer.started numerics faiss rows).trainTransform faiss
      (rows.map (center (learnMean quantizer.config rows))) = (rotated, none) ∧
    rotated.direction.train numerics faiss
      (((splitRows numerics faiss (learnMean quantizer.config rows) rows).map Prod.fst).map
        (rotated.transform faiss)) = (direction, none)

/-- A call that cannot spoil a trained object: the object is untrained, the call
is rejected at the entrance, or no stage throws. -/
def Undisturbed (numerics : Numerics F K) (faiss : Faiss F) (quantizer : RecastQuantizer F K)
    (rows : List (List F)) : Prop :=
  quantizer.trained = true → rows = [] ∨ StagesComplete numerics faiss quantizer rows

theorem RecastQuantizer.train_nil : quantizer.train numerics faiss [] =
    (quantizer, some (.invalidArgument "training vectors must not be empty")) := if_pos rfl

/-- A call whose stages complete completes. -/
theorem RecastQuantizer.train_of_stages (hrows : rows ≠ [])
    (hstages : StagesComplete numerics faiss quantizer rows) :
    (quantizer.train numerics faiss rows).2 = none := by
  obtain ⟨rotated, direction, htransform, hdirection⟩ := hstages
  obtain ⟨rotation, hframe, -⟩ := (quantizer.started numerics faiss rows).trainTransform_frame faiss
    (rows.map (center (learnMean quantizer.config rows)))
  rw [htransform] at hframe
  rw [RecastQuantizer.train, if_neg hrows]
  dsimp only
  unfold RecastQuantizer.started at htransform hframe
  rw [htransform]
  dsimp only at hframe ⊢
  have hmean : rotated.mean = learnMean quantizer.config rows := by rw [hframe]
  subst hframe
  rw [hdirection]

/-- A call that throws in a stage leaves `trained` as it was, over the mean of
its own rows and the scale range of an earlier call. -/
theorem RecastQuantizer.train_of_throw (hrows : rows ≠ [])
    (hstages : ¬StagesComplete numerics faiss quantizer rows) :
    (quantizer.train numerics faiss rows).1.trained = quantizer.trained ∧
      (quantizer.train numerics faiss rows).1.mean = learnMean quantizer.config rows ∧
      (quantizer.train numerics faiss rows).1.scaleMax = quantizer.scaleMax := by
  obtain ⟨rotation, hframe, -⟩ := (quantizer.started numerics faiss rows).trainTransform_frame faiss
    (rows.map (center (learnMean quantizer.config rows)))
  rcases htransform : (quantizer.started numerics faiss rows).trainTransform faiss
    (rows.map (center (learnMean quantizer.config rows))) with ⟨rotated, error⟩
  rw [htransform] at hframe
  dsimp only at hframe
  rw [RecastQuantizer.train, if_neg hrows]
  dsimp only
  have htransform' := htransform
  unfold RecastQuantizer.started at htransform'
  rw [htransform']
  cases error with
  | some error =>
      rw [hframe]
      exact ⟨rfl, rfl, rfl⟩
  | none =>
      rcases hdirection : rotated.direction.train numerics faiss
        (((splitRows numerics faiss (learnMean quantizer.config rows) rows).map Prod.fst).map
          (rotated.transform faiss)) with ⟨direction, error⟩
      cases error with
      | none => exact absurd ⟨rotated, direction, htransform, hdirection⟩ hstages
      | some error =>
          subst hframe
          dsimp only [RecastQuantizer.started] at hdirection ⊢
          rw [hdirection]
          exact ⟨rfl, rfl, rfl⟩

theorem RecastQuantizer.trainAll_append (earlier : List (List (List F))) (rows : List (List F)) :
    quantizer.trainAll numerics faiss (earlier ++ [rows]) =
      ((quantizer.trainAll numerics faiss earlier).train numerics faiss rows).1 := by
  rw [trainAll, List.foldl_append]
  rfl

/-- One more undisturbed call keeps the learned parts of one call. -/
theorem FromOneCall.append {calls : List (List (List F))}
    (h : FromOneCall numerics faiss quantizer calls)
    (hcall : Undisturbed numerics faiss (quantizer.trainAll numerics faiss calls) rows) :
    FromOneCall numerics faiss quantizer (calls ++ [rows]) := by
  intro htrained
  rw [RecastQuantizer.trainAll_append] at htrained ⊢
  by_cases hrows : rows = []
  · -- A rejected call changes nothing.
    subst hrows
    rw [RecastQuantizer.train_nil] at htrained ⊢
    obtain ⟨earlier, completed, later, rfl, hcompleted, hparts⟩ := h htrained
    exact ⟨earlier, completed, later ++ [[]], by simp, hcompleted, hparts⟩
  by_cases hstages : StagesComplete numerics faiss (quantizer.trainAll numerics faiss calls) rows
  · exact ⟨calls, rows, [], rfl, RecastQuantizer.train_of_stages hrows hstages, rfl⟩
  · rw [(RecastQuantizer.train_of_throw hrows hstages).1] at htrained
    rcases hcall htrained with hempty | hcomplete
    · exact absurd hempty hrows
    · exact absurd hcomplete hstages

/-- On an object whose every call is undisturbed, whatever is reported as
trained is of one completed call. -/
theorem trained_from_one_call {config : QuantizerConfig}
    (hcreate : RecastQuantizer.create faiss config = .ok quantizer)
    {calls : List (List (List F))}
    (hcalls : ∀ earlier rows later, calls = earlier ++ rows :: later →
      Undisturbed numerics faiss (quantizer.trainAll numerics faiss earlier) rows) :
    FromOneCall numerics faiss quantizer calls := by
  induction calls using List.reverseRecOn with
  | nil =>
      intro htrained
      rw [RecastQuantizer.trainAll, List.foldl_nil, RecastQuantizer.create_untrained hcreate]
        at htrained
      cases htrained
  | append_singleton calls rows ih =>
      refine FromOneCall.append (ih fun earlier completed later hsplit => ?_) ?_
      · exact hcalls earlier completed (later ++ [rows]) (by simp [hsplit])
      · exact hcalls calls rows [] rfl

end

/-- Exact square roots of 0 and 1. -/
def unitNumerics : Numerics ℚ ℚ := ⟨id, 1 / 10 ^ 12, fun _ => true, id, fun _ => 0⟩

/-- What Faiss does on rows that are all equal: the codebooks are at the origin,
and fewer rows than centroids are refused. -/
def equalRowsFaiss : Faiss ℚ where
  normL2Sqr v := (v.map fun x => x * x).sum
  innerProduct u v := (u.zipWith (· * ·) v).sum
  trainPca d _ _ :=
    (⟨d, d, true, true, (List.range (d * d)).map fun k => if k / d = k % d then 1 else 0,
      List.replicate d 0⟩, none)
  apply _ x := x
  transformTranspose _ y := y
  createPq d M nbits :=
    .ok ⟨d, M, nbits, 2 ^ nbits, (nbits * M + 7) / 8, List.replicate (d * 2 ^ nbits) 0⟩
  trainPq pq rows :=
    (pq, if rows.length < pq.ksub then
        some (.faiss "Number of training points should be at least as large as number of clusters")
      else none)
  computeCode pq _ := List.replicate pq.codeSize 0
  decode pq _ := List.replicate pq.d 0
  innerProdTable pq _ := List.replicate (pq.M * pq.ksub) 0

/-- A centered uniform quantizer of two dimensions. -/
def centeredQuantizer : RecastQuantizer ℚ ℚ :=
  ⟨⟨2, 2, .uniform, .none, .squaredL2, .mean⟩, [0, 0], none,
    .uniform ⟨2, 2, 4, 16, 1, List.replicate 32 0⟩, 0, 1, 0, 1, false⟩

theorem centeredQuantizer_created :
    RecastQuantizer.create equalRowsFaiss ⟨2, 2, .uniform, .none, .squaredL2, .mean⟩ =
      .ok centeredQuantizer := rfl

/-- Two completed calls and a rejected one: the learned parts are of the second. -/
theorem trained_from_one_call_second :
    (centeredQuantizer.trainAll unitNumerics equalRowsFaiss
      [List.replicate 16 [1, 1], List.replicate 16 [2, 2], []]).trained = true ∧
    (centeredQuantizer.trainAll unitNumerics equalRowsFaiss
      [List.replicate 16 [1, 1], List.replicate 16 [2, 2], []]).mean = [2, 2] ∧
    FromOneCall unitNumerics equalRowsFaiss centeredQuantizer
      [List.replicate 16 [1, 1], List.replicate 16 [2, 2], []] := by
  refine ⟨by decide +kernel, by decide +kernel, ?_⟩
  refine trained_from_one_call centeredQuantizer_created fun earlier rows later hsplit => ?_
  match earlier, hsplit with
  | [], _ => exact fun htrained => Bool.noConfusion htrained
  | [_], hsplit =>
      cases hsplit
      exact fun _ => .inr ⟨_, _, rfl, rfl⟩
  | [_, _], hsplit =>
      cases hsplit
      exact fun _ => .inl rfl
  | _ :: _ :: _ :: _, hsplit => simp at hsplit

/-- Sixteen rows train the object, one more row throws in the codebooks: the
object is still trained, with the mean of the row and the codebooks of the
sixteen. -/
theorem trained_from_two_calls :
    ¬FromOneCall unitNumerics equalRowsFaiss centeredQuantizer
      [List.replicate 16 [1, 1], [[2, 2]]] := by
  intro hone
  obtain ⟨earlier, rows, later, hsplit, hcompleted, hparts⟩ := hone (by decide +kernel)
  have hmean := congrArg LearnedParts.mean hparts
  match earlier, hsplit with
  | [], hsplit =>
      cases hsplit
      exact absurd hmean (by decide +kernel)
  | [_], hsplit =>
      cases hsplit
      exact absurd hcompleted (by decide +kernel)
  | _ :: _ :: _, hsplit => simp at hsplit

end Recast
