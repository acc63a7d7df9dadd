import Recast.Refiner.PlanLaws

/-!
# What the planner builds

Every candidate is in exactly one request, at the place of its record, and every
page of a request holds a candidate.
-/

namespace Recast

open Foundation

/-- The request holds the page of this location. -/
def ReadPlan.Holds (plan : ReadPlan) (first : Nat) (location : Location) : Prop :=
  location.listNo = plan.listNo ∧ first ≤ location.pageNo ∧
    location.pageNo < first + plan.pageCount

/-- In the sorted order of lists and pages. -/
def Location.Before (earlier later : Location) : Prop :=
  earlier.listNo < later.listNo ∨
    earlier.listNo = later.listNo ∧ earlier.pageNo ≤ later.pageNo

theorem Location.less_eq_false_iff {lhs rhs : Location} :
    rhs.less lhs = false ↔ lhs.listNo < rhs.listNo ∨ lhs.listNo = rhs.listNo ∧
      (lhs.pageNo < rhs.pageNo ∨
        lhs.pageNo = rhs.pageNo ∧ lhs.candidateIndex ≤ rhs.candidateIndex) := by
  rw [less]
  split
  next h => rw [decide_eq_false_iff_not]; omega
  next h =>
    split
    next h' => rw [decide_eq_false_iff_not]; omega
    next h' => rw [decide_eq_false_iff_not]; omega

instance : Std.Total fun lhs rhs : Location => rhs.less lhs = false where
  total lhs rhs := by
    rw [Location.less_eq_false_iff, Location.less_eq_false_iff]
    omega

instance : IsTrans Location fun lhs rhs => rhs.less lhs = false where
  trans first second third := by
    rw [Location.less_eq_false_iff, Location.less_eq_false_iff, Location.less_eq_false_iff]
    omega

namespace RecordLayout

variable {layout : RecordLayout}

/-- One request is the pages from `first` on, and each of its items is one of
the locations. -/
structure Planned (layout : RecordLayout) (locations : List Location) (plan : ReadPlan)
    (first : Nat) : Prop where
  alignedOffset : plan.alignedOffset = first * layout.pageSize
  requestBytes : plan.requestBytes = plan.pageCount * layout.pageSize
  pageCount_pos : 0 < plan.pageCount
  items : ∀ item ∈ plan.candidates, ∃ location ∈ locations, plan.Holds first location ∧
    item = ⟨location.candidateIndex,
      (location.pageNo - first) * layout.pageSize + location.recordInPage⟩
  lastPage : ∃ location ∈ locations, location.listNo = plan.listNo ∧
    location.pageNo + 1 = first + plan.pageCount

/-- The builder after some of the sorted locations. -/
structure Built (layout : RecordLayout) (locations : List Location) (builder : PlanBuilder) :
    Prop where
  sorted : builder.plans.Pairwise fun later earlier => earlier.listNo ≤ later.listNo
  planned : ∀ plan ∈ builder.plans, ∃ first, layout.Planned locations plan first
  indices : (builder.plans.reverse.flatMap ReadPlan.candidates).map (·.candidateIndex) =
    locations.map (·.candidateIndex)
  latest : (builder = ⟨[], uint32Max, uint64Max⟩ ∧ locations = []) ∨
    ∃ plan rest first, builder.plans = plan :: rest ∧ layout.Planned locations plan first ∧
      builder.previousList = plan.listNo ∧ builder.previousPage + 1 = first + plan.pageCount

theorem Planned.mono {locations : List Location} {plan : ReadPlan} {first : Nat}
    (h : layout.Planned locations plan first) (location : Location) :
    layout.Planned (locations ++ [location]) plan first where
  alignedOffset := h.alignedOffset
  requestBytes := h.requestBytes
  pageCount_pos := h.pageCount_pos
  items item hitem := by
    obtain ⟨location', hmem, hitem⟩ := h.items item hitem
    exact ⟨location', List.mem_append_left _ hmem, hitem⟩
  lastPage := by
    obtain ⟨location', hmem, hlast⟩ := h.lastPage
    exact ⟨location', List.mem_append_left _ hmem, hlast⟩

theorem Built.nil (layout : RecordLayout) : layout.Built [] ⟨[], uint32Max, uint64Max⟩ where
  sorted := List.Pairwise.nil
  planned := by simp
  indices := rfl
  latest := Or.inl ⟨rfl, rfl⟩

/-- Putting a location into the latest request, whose pages already include its page. -/
theorem addCandidate_built {locations : List Location} {builder : PlanBuilder}
    {location : Location} {plan : ReadPlan} {rest : List ReadPlan} {first : Nat}
    (hplans : builder.plans = plan :: rest)
    (hsorted : builder.plans.Pairwise fun later earlier => earlier.listNo ≤ later.listNo)
    (hrest : ∀ p ∈ rest, ∃ first, layout.Planned locations p first)
    (hplan : layout.Planned (locations ++ [location]) plan first)
    (hindices : (builder.plans.reverse.flatMap ReadPlan.candidates).map (·.candidateIndex) =
      locations.map (·.candidateIndex))
    (hholds : plan.Holds first location)
    (hprevious : builder.previousList = plan.listNo ∧
      builder.previousPage + 1 = first + plan.pageCount) :
    layout.Built (locations ++ [location]) (layout.addCandidate builder location) := by
  have hfirst : plan.alignedOffset / layout.pageSize = first := by
    rw [hplan.alignedOffset, Nat.mul_div_cancel _ layout.pageSize_pos]
  have hadd : layout.addCandidate builder location = { builder with
      plans := { plan with candidates := plan.candidates ++ [⟨location.candidateIndex,
        (location.pageNo - first) * layout.pageSize + location.recordInPage⟩] } :: rest } := by
    rw [addCandidate, hplans]
    simp only [hfirst]
  rw [hplans] at hsorted hindices
  have hnew : layout.Planned (locations ++ [location]) { plan with
      candidates := plan.candidates ++ [⟨location.candidateIndex,
        (location.pageNo - first) * layout.pageSize + location.recordInPage⟩] } first :=
    { alignedOffset := hplan.alignedOffset
      requestBytes := hplan.requestBytes
      pageCount_pos := hplan.pageCount_pos
      lastPage := hplan.lastPage
      items := by
        intro item hitem
        rcases List.mem_append.mp hitem with hitem | hitem
        · exact hplan.items item hitem
        · exact ⟨location, List.mem_append_right _ (List.mem_singleton_self _), hholds,
            List.mem_singleton.mp hitem⟩ }
  rw [hadd]
  refine ⟨?_, ?_, ?_, Or.inr ⟨_, _, first, rfl, hnew, hprevious⟩⟩
  · exact List.pairwise_cons.mpr (List.pairwise_cons.mp hsorted)
  · intro p hp
    rcases List.mem_cons.mp hp with rfl | hp
    · exact ⟨first, hnew⟩
    · obtain ⟨first', hfirst'⟩ := hrest p hp
      exact ⟨first', hfirst'.mono location⟩
  · simp only [List.reverse_cons, List.flatMap_append, List.flatMap_cons, List.flatMap_nil,
      List.append_nil, List.map_append, List.map_cons, List.map_nil] at hindices ⊢
    rw [← List.append_assoc, hindices]

theorem checkedMultiply_eq_ok {lhs rhs n : Nat} {message : String} :
    checkedMultiply lhs rhs message = .ok n ↔ lhs * rhs ≤ sizeMax ∧ n = lhs * rhs := by
  rw [checkedMultiply]
  split
  next h => simp [Nat.not_le.mpr h]
  next h => simp [Nat.not_lt.mp h, eq_comm]

theorem startPlan_eq_ok {plans plans' : List ReadPlan} {location : Location} :
    layout.startPlan plans location = .ok plans' ↔
      location.pageNo * layout.pageSize ≤ offMax ∧
        plans' = ⟨location.listNo, location.pageNo * layout.pageSize, 0, 0, []⟩ :: plans := by
  rw [startPlan]
  constructor
  · intro h
    obtain ⟨byteOffset, hmultiply, h⟩ := bind_eq_ok.mp h
    obtain ⟨-, rfl⟩ := checkedMultiply_eq_ok.mp hmultiply
    obtain ⟨hle, h⟩ := guard_eq_ok.mp h
    exact ⟨Nat.not_lt.mp hle, (Except.ok.inj h).symm⟩
  · rintro ⟨hle, rfl⟩
    have hsize : location.pageNo * layout.pageSize ≤ sizeMax :=
      hle.trans (by unfold offMax sizeMax; omega)
    rw [checkedMultiply_eq_ok.mpr ⟨hsize, rfl⟩, ok_bind, if_neg (Nat.not_lt.mpr hle)]

/-- What adding a page can do: nothing for the latest page, extend the latest
request, or start one. -/
theorem addPage_cases {builder builder' : PlanBuilder} {location : Location}
    (h : layout.addPage builder location = .ok builder') :
    (location.listNo = builder.previousList ∧ location.pageNo = builder.previousPage ∧
        builder' = builder) ∨
      (location.listNo = builder.previousList ∧ builder.previousPage ≠ uint64Max ∧
        location.pageNo = builder.previousPage + 1 ∧
        (builder.plans = [] ∨ ∃ plan rest, builder.plans = plan :: rest ∧
          builder' = ⟨{ plan with
            pageCount := plan.pageCount + 1
            requestBytes := (plan.pageCount + 1) * layout.pageSize } :: rest,
            location.listNo, location.pageNo⟩)) ∨
      (¬(location.listNo = builder.previousList ∧ location.pageNo = builder.previousPage) ∧
        ¬(location.listNo = builder.previousList ∧ builder.previousPage ≠ uint64Max ∧
          location.pageNo = builder.previousPage + 1) ∧
        builder' = ⟨⟨location.listNo, location.pageNo * layout.pageSize, 1 * layout.pageSize, 1,
          []⟩ :: builder.plans, location.listNo, location.pageNo⟩) := by
  rw [addPage] at h
  split at h
  next hsame => exact .inl ⟨hsame.1, hsame.2, (Except.ok.inj h).symm⟩
  next hsame =>
    obtain ⟨plans, hadjacent, h⟩ := bind_eq_ok.mp h
    rw [adjacentPlans] at hadjacent
    split at hadjacent
    next hnext =>
      obtain rfl := Except.ok.inj hadjacent
      refine .inr (.inl ⟨hnext.1, hnext.2.1, hnext.2.2, ?_⟩)
      cases hplans : builder.plans with
      | nil => exact .inl rfl
      | cons plan rest =>
          rw [hplans] at h
          obtain ⟨requestBytes, hmultiply, h⟩ := bind_eq_ok.mp h
          obtain ⟨-, rfl⟩ := checkedMultiply_eq_ok.mp hmultiply
          exact .inr ⟨plan, rest, rfl, (Except.ok.inj h).symm⟩
    next hnext =>
      obtain ⟨-, rfl⟩ := startPlan_eq_ok.mp hadjacent
      obtain ⟨requestBytes, hmultiply, h⟩ := bind_eq_ok.mp h
      obtain ⟨-, rfl⟩ := checkedMultiply_eq_ok.mp hmultiply
      exact .inr (.inr ⟨hsame, hnext, (Except.ok.inj h).symm⟩)

/-- The page of the next location is in the latest request. -/
theorem addPage_spec {locations : List Location} {builder : PlanBuilder} {location : Location}
    (h : layout.Built locations builder) (hfollows : ∀ earlier ∈ locations, earlier.Before location)
    (hpage : location.pageNo < uint64Max)
    {builder' : PlanBuilder} (hadd : layout.addPage builder location = .ok builder') :
    ∃ plan rest first, builder'.plans = plan :: rest ∧
      builder'.plans.Pairwise (fun later earlier => earlier.listNo ≤ later.listNo) ∧
      (∀ p ∈ rest, ∃ first, layout.Planned locations p first) ∧
      layout.Planned (locations ++ [location]) plan first ∧
      (builder'.plans.reverse.flatMap ReadPlan.candidates).map (·.candidateIndex) =
        locations.map (·.candidateIndex) ∧
      plan.Holds first location ∧ builder'.previousList = plan.listNo ∧
      builder'.previousPage + 1 = first + plan.pageCount := by
  rcases addPage_cases hadd with ⟨hlist, hpageEq, rfl⟩ | ⟨hlist, hnotNone, hpageEq, hcase⟩ |
    ⟨-, -, rfl⟩
  · -- another candidate of the latest page
    rcases h.latest with ⟨rfl, -⟩ | ⟨plan, rest, first, hplans, hplan, hpreviousList, hprevious⟩
    · simp only at hpageEq
      omega
    · have hcount := hplan.pageCount_pos
      refine ⟨plan, rest, first, hplans, h.sorted, ?_, hplan.mono location, h.indices, ?_,
        hpreviousList, hprevious⟩
      · intro p hp
        exact h.planned p (by rw [hplans]; exact List.mem_cons_of_mem _ hp)
      · exact ⟨hlist.trans hpreviousList, by omega, by omega⟩
  · -- the next page extends the latest request
    rcases h.latest with ⟨rfl, -⟩ | ⟨plan, rest, first, hplans, hplan, hpreviousList, hprevious⟩
    · exact absurd rfl hnotNone
    rcases hcase with hempty | ⟨plan', rest', hplans', rfl⟩
    · rw [hplans] at hempty
      cases hempty
    · have hsorted := h.sorted
      have hindices := h.indices
      rw [hplans] at hsorted hindices hplans'
      cases hplans'
      have hmono := hplan.mono location
      refine ⟨_, rest, first, rfl, ?_, ?_, ⟨hplan.alignedOffset, rfl, Nat.succ_pos _, ?_, ?_⟩,
        ?_, ⟨hlist.trans hpreviousList, ?_, ?_⟩, hlist.trans hpreviousList, ?_⟩
      · exact List.pairwise_cons.mpr (List.pairwise_cons.mp hsorted)
      · intro p hp
        exact h.planned p (by rw [hplans]; exact List.mem_cons_of_mem _ hp)
      · intro item hitem
        obtain ⟨location', hmem, ⟨hlist', hlow, hhigh⟩, heq⟩ := hmono.items item hitem
        exact ⟨location', hmem, ⟨hlist', hlow, by simp only; omega⟩, heq⟩
      · exact ⟨location, List.mem_append_right _ (List.mem_singleton_self _),
          hlist.trans hpreviousList, by simp only; omega⟩
      · simpa using hindices
      · omega
      · simp only
        omega
      · simp only
        omega
  · -- a page apart from the latest request starts a new one
    refine ⟨_, builder.plans, location.pageNo, rfl, ?_, h.planned,
      ⟨rfl, rfl, Nat.succ_pos _, by simp, ?_⟩, ?_, ⟨rfl, Nat.le_refl _, Nat.lt_succ_self _⟩, rfl,
      rfl⟩
    · refine List.pairwise_cons.mpr ⟨?_, h.sorted⟩
      intro p hp
      obtain ⟨first, hplan⟩ := h.planned p hp
      obtain ⟨location', hmem, hlist', -⟩ := hplan.lastPage
      rcases hfollows location' hmem with hlt | ⟨heq, -⟩
      · exact hlist'.symm.trans_le hlt.le
      · exact (hlist'.symm.trans heq).le
    · exact ⟨location, List.mem_append_right _ (List.mem_singleton_self _), rfl, rfl⟩
    · simpa using h.indices

theorem addLocation_built {locations : List Location} {builder : PlanBuilder} {location : Location}
    (h : layout.Built locations builder) (hfollows : ∀ earlier ∈ locations, earlier.Before location)
    (hpage : location.pageNo < uint64Max)
    {builder' : PlanBuilder} (hadd : layout.addLocation builder location = .ok builder') :
    layout.Built (locations ++ [location]) builder' := by
  rw [addLocation] at hadd
  obtain ⟨middle, hpageAdded, hadd⟩ := bind_eq_ok.mp hadd
  obtain rfl := Except.ok.inj hadd
  obtain ⟨plan, rest, first, hplans, hsorted, hrest, hplan, hindices, hholds, hprevious⟩ :=
    addPage_spec h hfollows hpage hpageAdded
  exact addCandidate_built hplans hsorted hrest hplan hindices hholds hprevious

theorem addLocations_built {locations rest : List Location} {builder builder' : PlanBuilder}
    (h : layout.Built locations builder)
    (hsorted : (locations ++ rest).Pairwise Location.Before)
    (hpage : ∀ location ∈ rest, location.pageNo < uint64Max)
    (hadd : rest.foldlM layout.addLocation builder = .ok builder') :
    layout.Built (locations ++ rest) builder' := by
  induction rest generalizing locations builder with
  | nil =>
      obtain rfl : builder = builder' := Except.ok.inj hadd
      rwa [List.append_nil]
  | cons location rest ih =>
      rw [List.foldlM_cons] at hadd
      obtain ⟨middle, hmiddle, hadd⟩ := bind_eq_ok.mp hadd
      have hfollows : ∀ earlier ∈ locations, earlier.Before location := fun earlier hearlier =>
        (List.pairwise_append.mp hsorted).2.2 earlier hearlier location List.mem_cons_self
      have hbuilt := addLocation_built h hfollows (hpage location List.mem_cons_self) hmiddle
      rw [← List.singleton_append, ← List.append_assoc] at hsorted ⊢
      exact ih hbuilt hsorted (fun l hl => hpage l (List.mem_cons_of_mem _ hl)) hadd

theorem locations_perm (layout : RecordLayout) (candidates : List ListCandidate) :
    (layout.locations candidates).Perm (candidates.mapIdx layout.location) :=
  List.perm_insertionSort _ _

theorem locations_sorted (layout : RecordLayout) (candidates : List ListCandidate) :
    (layout.locations candidates).Pairwise Location.Before := by
  refine (List.pairwise_insertionSort _ _).imp ?_
  intro lhs rhs hless
  rw [Location.less_eq_false_iff] at hless
  unfold Location.Before
  omega

theorem mem_locations {candidates : List ListCandidate} {location : Location}
    (h : location ∈ layout.locations candidates) :
    ∃ candidate, candidates[location.candidateIndex]? = some candidate ∧
      location = layout.location location.candidateIndex candidate := by
  obtain ⟨i, hi, rfl⟩ := List.mem_mapIdx.mp ((layout.locations_perm candidates).subset h)
  exact ⟨candidates[i], List.getElem?_eq_getElem hi, rfl⟩

theorem locations_page_lt {candidates : List ListCandidate} {location : Location}
    (h : location ∈ layout.locations candidates) : location.pageNo < uint64Max := by
  obtain ⟨candidate, -, hlocation⟩ := mem_locations h
  have hlt := candidate.offset_lt
  have hle := Nat.div_le_self candidate.offset layout.recordsPerPage
  rw [hlocation]
  change candidate.offset / layout.recordsPerPage < 2 ^ 64 - 1
  omega

theorem locations_indices (layout : RecordLayout) (candidates : List ListCandidate) :
    ((layout.locations candidates).map (·.candidateIndex)).Perm (List.range candidates.length) := by
  refine ((layout.locations_perm candidates).map _).trans ?_
  have hindex : (candidates.mapIdx layout.location).map (·.candidateIndex) =
      List.range candidates.length :=
    List.ext_getElem (by simp) (by simp [location])
  rw [hindex]

/-- Every candidate is in one request, and the requests are sorted by list. -/
theorem buildReadPlans_spec {candidates : List ListCandidate} {plans : List ReadPlan}
    (h : layout.buildReadPlans candidates = .ok plans) :
    plans.Pairwise (fun p q => p.listNo ≤ q.listNo) ∧
      (∀ plan ∈ plans, ∃ first, layout.Planned (layout.locations candidates) plan first) ∧
      ((plans.flatMap ReadPlan.candidates).map (·.candidateIndex)).Perm
        (List.range candidates.length) := by
  rw [buildReadPlans] at h
  obtain ⟨builder, hbuilder, h⟩ := bind_eq_ok.mp h
  obtain rfl := Except.ok.inj h
  have hbuilt := addLocations_built (Built.nil layout)
    (by simpa using layout.locations_sorted candidates)
    (fun location => locations_page_lt) hbuilder
  rw [List.nil_append] at hbuilt
  refine ⟨List.pairwise_reverse.mpr hbuilt.sorted,
    fun plan hplan => hbuilt.planned plan (List.mem_reverse.mp hplan), ?_⟩
  rw [hbuilt.indices]
  exact layout.locations_indices candidates

/-- The files hold the page of every location. -/
def Readable (layout : RecordLayout) (files : Nat → Bytes) (location : Location) : Prop :=
  (location.pageNo + 1) * layout.pageSize ≤ (files location.listNo).length ∧
    (files location.listNo).length ≤ offMax

/-- A request on readable files ends inside its file. -/
theorem Planned.end_le {locations : List Location} {plan : ReadPlan} {first : Nat}
    (h : layout.Planned locations plan first) {files : Nat → Bytes}
    (hreadable : ∀ location ∈ locations, layout.Readable files location) :
    plan.alignedOffset + plan.requestBytes ≤ (files plan.listNo).length ∧
      (files plan.listNo).length ≤ offMax := by
  obtain ⟨location, hmem, hlist, hlast⟩ := h.lastPage
  obtain ⟨hend, hsize⟩ := hreadable location hmem
  rw [hlist, hlast] at hend
  rw [hlist] at hsize
  rw [h.alignedOffset, h.requestBytes, ← Nat.add_mul]
  exact ⟨hend, hsize⟩

theorem addLocation_readable {locations : List Location} {builder : PlanBuilder}
    {location : Location} (h : layout.Built locations builder) {files : Nat → Bytes}
    (hlocation : layout.Readable files location) :
    ∃ builder', layout.addLocation builder location = .ok builder' := by
  have hmax : offMax ≤ sizeMax := by unfold offMax sizeMax; omega
  obtain ⟨hend, hsize⟩ := hlocation
  suffices hpage : ∃ builder', layout.addPage builder location = .ok builder' by
    obtain ⟨builder', hbuilder'⟩ := hpage
    exact ⟨_, by rw [addLocation, hbuilder', ok_bind]⟩
  rw [addPage]
  split
  next => exact ⟨builder, rfl⟩
  next hsame =>
    rw [adjacentPlans]
    split
    next hnext =>
      rcases h.latest with ⟨rfl, -⟩ | ⟨plan, rest, first, hplans, hplan, hpreviousList, hprevious⟩
      · exact absurd rfl hnext.2.1
      · have hle : plan.pageCount + 1 ≤ location.pageNo + 1 := by omega
        have hfits := ((Nat.mul_le_mul_right _ hle).trans hend).trans (hsize.trans hmax)
        rw [ok_bind, hplans]
        dsimp only
        rw [checkedMultiply_eq_ok.mpr ⟨hfits, rfl⟩, ok_bind]
        exact ⟨_, rfl⟩
    next =>
      have hstart : location.pageNo * layout.pageSize ≤ (location.pageNo + 1) * layout.pageSize :=
        Nat.mul_le_mul_right _ (Nat.le_succ _)
      have hle : (0 + 1) * layout.pageSize ≤ (location.pageNo + 1) * layout.pageSize :=
        Nat.mul_le_mul_right _ (by omega)
      have hfits := (hle.trans hend).trans (hsize.trans hmax)
      rw [startPlan_eq_ok.mpr ⟨by omega, rfl⟩, ok_bind]
      dsimp only
      rw [checkedMultiply_eq_ok.mpr ⟨hfits, rfl⟩, ok_bind]
      exact ⟨_, rfl⟩

theorem addLocations_readable {locations rest : List Location} {builder : PlanBuilder}
    (h : layout.Built locations builder)
    (hsorted : (locations ++ rest).Pairwise Location.Before)
    (hpage : ∀ location ∈ rest, location.pageNo < uint64Max) {files : Nat → Bytes}
    (hreadable : ∀ location ∈ locations ++ rest, layout.Readable files location) :
    ∃ builder', rest.foldlM layout.addLocation builder = .ok builder' := by
  induction rest generalizing locations builder with
  | nil => exact ⟨builder, rfl⟩
  | cons location rest ih =>
      obtain ⟨middle, hmiddle⟩ := addLocation_readable h
        (hreadable location (List.mem_append_right _ List.mem_cons_self))
      have hfollows : ∀ earlier ∈ locations, earlier.Before location := fun earlier hearlier =>
        (List.pairwise_append.mp hsorted).2.2 earlier hearlier location List.mem_cons_self
      have hbuilt := addLocation_built h hfollows (hpage location List.mem_cons_self) hmiddle
      rw [List.foldlM_cons, hmiddle, ok_bind]
      rw [← List.singleton_append, ← List.append_assoc] at hsorted hreadable
      exact ih hbuilt hsorted (fun l hl => hpage l (List.mem_cons_of_mem _ hl)) hreadable

/-- Planning over readable files returns. -/
theorem buildReadPlans_readable {candidates : List ListCandidate} {files : Nat → Bytes}
    (hreadable : ∀ location ∈ layout.locations candidates, layout.Readable files location) :
    ∃ plans, layout.buildReadPlans candidates = .ok plans := by
  obtain ⟨builder, hbuilder⟩ := addLocations_readable (Built.nil layout)
    (by simpa using layout.locations_sorted candidates)
    (fun location => locations_page_lt) (by simpa using hreadable)
  exact ⟨_, by rw [buildReadPlans, hbuilder, ok_bind]⟩

end RecordLayout

theorem planRefine_eq_ok {layout : RecordLayout} {nlist : Nat} {options : ListFileRefineOptions}
    {query : List Float32} {dimension : Nat} {candidates : List ListCandidate} {topk : Nat}
    {distanceFunction : ExactDistanceFunction} {call : RefineCall}
    (h : planRefine layout nlist options query dimension candidates topk distanceFunction =
      .ok call) :
    layout.buildReadPlans candidates = .ok call.plans ∧
      call = ⟨layout, options, topk, call.plans, distinctLists call.plans,
        fun payload => distanceFunction query payload dimension⟩ := by
  rw [planRefine] at h
  obtain ⟨-, h⟩ := guard_eq_ok.mp h
  obtain ⟨-, h⟩ := guard_eq_ok.mp h
  obtain ⟨plans, hplans, h⟩ := bind_eq_ok.mp h
  obtain rfl := Except.ok.inj h
  exact ⟨hplans, rfl⟩

theorem planRefine_sorted {layout : RecordLayout} {nlist : Nat} {options : ListFileRefineOptions}
    {query : List Float32} {dimension : Nat} {candidates : List ListCandidate} {topk : Nat}
    {distanceFunction : ExactDistanceFunction} {call : RefineCall}
    (h : planRefine layout nlist options query dimension candidates topk distanceFunction =
      .ok call) : call.Sorted := by
  obtain ⟨hplans, hcall⟩ := planRefine_eq_ok h
  refine ⟨(RecordLayout.buildReadPlans_spec hplans).1, ?_⟩
  rw [hcall]

end Recast
