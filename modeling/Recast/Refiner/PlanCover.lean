import Recast.Refiner.BuildPlans

/-!
# The pages of the read plans

The plans read every page a candidate is on once, no other page, and no two
plans of one list touch.
-/

namespace Recast

open Foundation

variable {layout : RecordLayout}

namespace ReadPlan

variable (layout : RecordLayout) (plan : ReadPlan)

/-- The first page of a request. -/
def firstPage : Nat := plan.alignedOffset / layout.pageSize

/-- The pages a request reads, with their list. -/
def pages : List (Nat × Nat) :=
  (List.range plan.pageCount).map fun k => (plan.listNo, plan.firstPage layout + k)

/-- There is a gap of a page at least between two requests of one list. -/
def Apart (earlier later : ReadPlan) : Prop :=
  earlier.listNo < later.listNo ∨ earlier.listNo = later.listNo ∧
    earlier.firstPage layout + earlier.pageCount < later.firstPage layout

variable {layout plan}

theorem mem_pages {page : Nat × Nat} : page ∈ plan.pages layout ↔
    page.1 = plan.listNo ∧ plan.firstPage layout ≤ page.2 ∧
      page.2 < plan.firstPage layout + plan.pageCount := by
  rw [pages, List.mem_map]
  constructor
  · rintro ⟨k, hk, rfl⟩
    have := List.mem_range.mp hk
    exact ⟨rfl, Nat.le_add_right _ _, by simp only; omega⟩
  · rintro ⟨hlist, hlow, hhigh⟩
    refine ⟨page.2 - plan.firstPage layout, List.mem_range.mpr (by omega), Prod.ext hlist.symm ?_⟩
    exact Nat.add_sub_cancel' hlow

theorem pages_nodup : (plan.pages layout).Nodup := by
  refine List.nodup_range.map fun k k' h => ?_
  exact Nat.add_left_cancel (Prod.ext_iff.mp h).2

theorem Apart.disjoint {earlier later : ReadPlan} (h : earlier.Apart layout later) :
    (earlier.pages layout).Disjoint (later.pages layout) := by
  intro page hearlier hlater
  obtain ⟨hlist, -, hend⟩ := mem_pages.mp hearlier
  obtain ⟨hlist', hstart, -⟩ := mem_pages.mp hlater
  rcases h with hlt | ⟨-, hgap⟩
  · exact absurd (hlist.symm.trans hlist') hlt.ne
  · omega

theorem Apart.trans {first second third : ReadPlan} (h : first.Apart layout second)
    (h' : second.Apart layout third) : first.Apart layout third := by
  unfold Apart at h h' ⊢
  omega

end ReadPlan

namespace RecordLayout

/-- The requests so far are apart, and each of their pages has a location. -/
structure Covered (layout : RecordLayout) (locations : List Location) (builder : PlanBuilder) :
    Prop where
  apart : builder.plans.Pairwise fun later earlier => earlier.Apart layout later
  touched : ∀ plan ∈ builder.plans, ∀ page ∈ plan.pages layout,
    ∃ location ∈ locations, page = (location.listNo, location.pageNo)

theorem Covered.nil (layout : RecordLayout) : layout.Covered [] ⟨[], uint32Max, uint64Max⟩ :=
  ⟨List.Pairwise.nil, by simp⟩

theorem Planned.firstPage_eq {locations : List Location} {plan : ReadPlan} {first : Nat}
    (h : layout.Planned locations plan first) : plan.firstPage layout = first := by
  rw [ReadPlan.firstPage, h.alignedOffset, Nat.mul_div_cancel _ layout.pageSize_pos]

/-- A request started for a page that does not continue the latest request is
apart from all the others. -/
theorem startPlan_apart {locations : List Location} {builder : PlanBuilder} {location : Location}
    (h : layout.Built locations builder) (hcovered : layout.Covered locations builder)
    (hfollows : ∀ earlier ∈ locations, earlier.Before location)
    (hpage : location.pageNo < uint64Max)
    (hsame : ¬(location.listNo = builder.previousList ∧ location.pageNo = builder.previousPage))
    (hnext : ¬(location.listNo = builder.previousList ∧ builder.previousPage ≠ uint64Max ∧
      location.pageNo = builder.previousPage + 1)) {plan : ReadPlan}
    (hlist : plan.listNo = location.listNo) (hfirst : plan.firstPage layout = location.pageNo) :
    ∀ earlier ∈ builder.plans, earlier.Apart layout plan := by
  rcases h.latest with ⟨rfl, -⟩ | ⟨latest, rest, first, hplans, hplan, hpreviousList, hprevious⟩
  · simp
  have hlatest : latest.Apart layout plan := by
    obtain ⟨last, hmem, hlastList, hlastPage⟩ := hplan.lastPage
    rw [ReadPlan.Apart, hplan.firstPage_eq, hlist, hfirst]
    rcases hfollows last hmem with hlt | ⟨heq, hle⟩
    · exact .inl (hlastList ▸ hlt)
    · have hcontinues : location.listNo = builder.previousList := by omega
      have hpreviousPage : builder.previousPage ≠ uint64Max := by omega
      have hnotSame : location.pageNo ≠ builder.previousPage := fun hpageEq =>
        hsame ⟨hcontinues, hpageEq⟩
      have hnotNext : location.pageNo ≠ builder.previousPage + 1 := fun hpageEq =>
        hnext ⟨hcontinues, hpreviousPage, hpageEq⟩
      exact .inr ⟨by omega, by omega⟩
  have hapart := hcovered.apart
  rw [hplans] at hapart ⊢
  intro earlier hearlier
  rcases List.mem_cons.mp hearlier with rfl | hrest
  · exact hlatest
  · exact ((List.pairwise_cons.mp hapart).1 earlier hrest).trans hlatest

theorem addPage_covered {locations : List Location} {builder builder' : PlanBuilder}
    {location : Location} (h : layout.Built locations builder)
    (hcovered : layout.Covered locations builder)
    (hfollows : ∀ earlier ∈ locations, earlier.Before location)
    (hpage : location.pageNo < uint64Max)
    (hadd : layout.addPage builder location = .ok builder') :
    layout.Covered (locations ++ [location]) builder' := by
  have hkept (plan : ReadPlan) (hplan : plan ∈ builder.plans) (page : Nat × Nat)
      (hmem : page ∈ plan.pages layout) :
      ∃ location' ∈ locations ++ [location], page = (location'.listNo, location'.pageNo) := by
    obtain ⟨location', hlocation', heq⟩ := hcovered.touched plan hplan page hmem
    exact ⟨location', List.mem_append_left _ hlocation', heq⟩
  have hself : location ∈ locations ++ [location] :=
    List.mem_append_right _ (List.mem_singleton_self _)
  rcases addPage_cases hadd with ⟨-, -, rfl⟩ | ⟨hlist, hnone, hpageEq, hcase⟩ | ⟨hsame, hnext, rfl⟩
  · exact ⟨hcovered.apart, hkept⟩
  · rcases h.latest with ⟨rfl, -⟩ | ⟨plan, rest, first, hplans, hplan, hpreviousList, hprevious⟩
    · exact absurd rfl hnone
    rcases hcase with hempty | ⟨plan', rest', hplans', rfl⟩
    · rw [hplans] at hempty
      cases hempty
    · rw [hplans] at hplans'
      cases hplans'
      have hapart := hcovered.apart
      rw [hplans] at hapart
      refine ⟨List.pairwise_cons.mpr (List.pairwise_cons.mp hapart), fun p hp page hmem => ?_⟩
      rcases List.mem_cons.mp hp with rfl | hp
      · -- The new page is the location's, the others were there.
        obtain ⟨hpageList, hlow, hhigh⟩ := ReadPlan.mem_pages.mp hmem
        have hfirst := hplan.firstPage_eq
        change plan.firstPage layout ≤ page.2 at hlow
        change page.2 < plan.firstPage layout + (plan.pageCount + 1) at hhigh
        by_cases hold : page.2 < plan.firstPage layout + plan.pageCount
        · exact hkept plan (by rw [hplans]; exact List.mem_cons_self) page
            (ReadPlan.mem_pages.mpr ⟨hpageList, hlow, hold⟩)
        · refine ⟨location, hself, Prod.ext ?_ ?_⟩
          · exact hpageList.trans (hpreviousList.symm.trans hlist.symm)
          · change page.2 = location.pageNo
            omega
      · exact hkept p (by rw [hplans]; exact List.mem_cons_of_mem _ hp) page hmem
  · have hstart : (⟨location.listNo, location.pageNo * layout.pageSize, 1 * layout.pageSize, 1, []⟩ :
        ReadPlan).firstPage layout = location.pageNo := Nat.mul_div_cancel _ layout.pageSize_pos
    refine ⟨List.pairwise_cons.mpr ⟨startPlan_apart h hcovered hfollows hpage hsame hnext rfl hstart,
      hcovered.apart⟩, fun p hp page hmem => ?_⟩
    rcases List.mem_cons.mp hp with rfl | hp
    · obtain ⟨hpageList, hlow, hhigh⟩ := ReadPlan.mem_pages.mp hmem
      rw [hstart] at hlow hhigh
      exact ⟨location, hself, Prod.ext hpageList (Nat.le_antisymm (Nat.le_of_lt_succ hhigh) hlow)⟩
    · exact hkept p hp page hmem

/-- Putting a candidate into the latest request reads no other page. -/
theorem addCandidate_covered {locations : List Location} {builder : PlanBuilder}
    (h : layout.Covered locations builder) (location : Location) :
    layout.Covered locations (layout.addCandidate builder location) := by
  obtain ⟨plans, previousList, previousPage⟩ := builder
  cases plans with
  | nil => exact h
  | cons plan rest =>
      obtain ⟨hapart, htouched⟩ := h
      refine ⟨List.pairwise_cons.mpr (List.pairwise_cons.mp hapart), fun p hp => ?_⟩
      rcases List.mem_cons.mp hp with rfl | hp
      · exact htouched plan List.mem_cons_self
      · exact htouched p (List.mem_cons_of_mem _ hp)

theorem addLocations_covered {locations rest : List Location} {builder builder' : PlanBuilder}
    (h : layout.Built locations builder) (hcovered : layout.Covered locations builder)
    (hsorted : (locations ++ rest).Pairwise Location.Before)
    (hpage : ∀ location ∈ rest, location.pageNo < uint64Max)
    (hadd : rest.foldlM layout.addLocation builder = .ok builder') :
    layout.Covered (locations ++ rest) builder' := by
  induction rest generalizing locations builder with
  | nil =>
      obtain rfl : builder = builder' := Except.ok.inj hadd
      rwa [List.append_nil]
  | cons location rest ih =>
      rw [List.foldlM_cons] at hadd
      obtain ⟨next, hnext, hadd⟩ := bind_eq_ok.mp hadd
      have hfollows : ∀ earlier ∈ locations, earlier.Before location := fun earlier hearlier =>
        (List.pairwise_append.mp hsorted).2.2 earlier hearlier location List.mem_cons_self
      have hlocation := hpage location List.mem_cons_self
      have hbuilt := addLocation_built h hfollows hlocation hnext
      rw [addLocation] at hnext
      obtain ⟨middle, hmiddle, hnext⟩ := bind_eq_ok.mp hnext
      obtain rfl := Except.ok.inj hnext
      have hnextCovered := addCandidate_covered
        (addPage_covered h hcovered hfollows hlocation hmiddle) location
      rw [← List.singleton_append, ← List.append_assoc] at hsorted ⊢
      exact ih hbuilt hnextCovered hsorted (fun l hl => hpage l (List.mem_cons_of_mem _ hl)) hadd

theorem buildReadPlans_covered {candidates : List ListCandidate} {plans : List ReadPlan}
    (h : layout.buildReadPlans candidates = .ok plans) :
    plans.Pairwise (fun earlier later => earlier.Apart layout later) ∧
      ∀ plan ∈ plans, ∀ page ∈ plan.pages layout, ∃ candidate ∈ candidates,
        page = (candidate.listNo, candidate.offset / layout.recordsPerPage) := by
  rw [buildReadPlans] at h
  obtain ⟨builder, hbuilder, h⟩ := bind_eq_ok.mp h
  obtain rfl := Except.ok.inj h
  have hcovered := addLocations_covered (Built.nil layout) (Covered.nil layout)
    (by simpa using layout.locations_sorted candidates)
    (fun location => locations_page_lt) hbuilder
  rw [List.nil_append] at hcovered
  refine ⟨List.pairwise_reverse.mpr hcovered.apart, fun plan hplan page hpage => ?_⟩
  obtain ⟨location, hlocation, rfl⟩ := hcovered.touched plan (List.mem_reverse.mp hplan) page hpage
  obtain ⟨candidate, hcandidate, heq⟩ := mem_locations hlocation
  exact ⟨candidate, List.mem_of_getElem? hcandidate, by rw [heq]; rfl⟩

theorem slot_end_le (layout : RecordLayout) (offset : Nat) :
    offset % layout.recordsPerPage * layout.recordStride + layout.recordStride ≤
      layout.pageSize := by
  rw [← Nat.succ_mul]
  calc (offset % layout.recordsPerPage).succ * layout.recordStride
      ≤ layout.recordsPerPage * layout.recordStride :=
        Nat.mul_le_mul_right _ (Nat.mod_lt _ layout.recordsPerPage_pos)
    _ ≤ layout.pageSize := Nat.div_mul_le_self _ _

/-- Where an item of a request comes from. -/
theorem Planned.item {candidates : List ListCandidate} {plan : ReadPlan} {first : Nat}
    (h : layout.Planned (layout.locations candidates) plan first) {item : CandidateInRequest}
    (hitem : item ∈ plan.candidates) :
    ∃ candidate, candidates[item.candidateIndex]? = some candidate ∧
      candidate.listNo = plan.listNo ∧
      first ≤ candidate.offset / layout.recordsPerPage ∧
      candidate.offset / layout.recordsPerPage < first + plan.pageCount ∧
      item.recordInBuffer = (candidate.offset / layout.recordsPerPage - first) * layout.pageSize +
        candidate.offset % layout.recordsPerPage * layout.recordStride := by
  obtain ⟨location, hlocation, ⟨hlist, hlow, hhigh⟩, rfl⟩ := h.items item hitem
  obtain ⟨candidate, hcandidate, heq⟩ := mem_locations hlocation
  rw [heq] at hlist hlow hhigh
  refine ⟨candidate, hcandidate, hlist, hlow, hhigh, ?_⟩
  rw [heq]
  rfl

end RecordLayout

/-- Every candidate is in one plan, at its place; the plans are the pages the
candidates are on, each once, and stay apart. -/
structure PlansCover (layout : RecordLayout) (candidates : List ListCandidate)
    (plans : List ReadPlan) : Prop where
  once : ((plans.flatMap ReadPlan.candidates).map (·.candidateIndex)).Perm
    (List.range candidates.length)
  placed : ∀ plan ∈ plans, ∀ item ∈ plan.candidates, ∃ candidate,
    candidates[item.candidateIndex]? = some candidate ∧ candidate.listNo = plan.listNo ∧
      plan.alignedOffset + item.recordInBuffer =
        candidate.offset / layout.recordsPerPage * layout.pageSize +
          candidate.offset % layout.recordsPerPage * layout.recordStride ∧
      item.recordInBuffer + layout.recordStride ≤ plan.requestBytes
  in_range : ∀ call : RefineCall, call.layout = layout → ∀ bytes heap, ∀ plan ∈ plans,
    ∀ item ∈ plan.candidates, call.processCandidate bytes plan heap item =
      insertExact call.topk heap (ofLittleEndian (slice bytes item.recordInBuffer 4))
        (call.distance (slice bytes (item.recordInBuffer + 4) call.layout.payloadBytes))
  whole_pages : ∀ plan ∈ plans, plan.alignedOffset = plan.firstPage layout * layout.pageSize ∧
    plan.requestBytes = plan.pageCount * layout.pageSize
  pages_once : (plans.flatMap (ReadPlan.pages layout)).Nodup
  pages_touched : ∀ page, page ∈ plans.flatMap (ReadPlan.pages layout) ↔
    ∃ candidate ∈ candidates,
      page = (candidate.listNo, candidate.offset / layout.recordsPerPage)
  apart : plans.Pairwise fun earlier later => earlier.Apart layout later
  in_file : ∀ size : Nat → Nat, (∀ candidate ∈ candidates, candidate.offset < size candidate.listNo) →
    ∀ plan ∈ plans, plan.alignedOffset + plan.requestBytes ≤
      pageCount (size plan.listNo) layout.recordsPerPage * layout.pageSize

/-- The plans of any candidates cover them, unless an offset overflows. -/
theorem read_plans_cover {candidates : List ListCandidate} {plans : List ReadPlan}
    (h : layout.buildReadPlans candidates = .ok plans) : PlansCover layout candidates plans := by
  obtain ⟨-, hplanned, honce⟩ := RecordLayout.buildReadPlans_spec h
  obtain ⟨hapart, htouched⟩ := RecordLayout.buildReadPlans_covered h
  have hplaced (plan : ReadPlan) (hplan : plan ∈ plans) (item : CandidateInRequest)
      (hitem : item ∈ plan.candidates) : ∃ candidate,
      candidates[item.candidateIndex]? = some candidate ∧ candidate.listNo = plan.listNo ∧
        plan.alignedOffset + item.recordInBuffer =
          candidate.offset / layout.recordsPerPage * layout.pageSize +
            candidate.offset % layout.recordsPerPage * layout.recordStride ∧
        item.recordInBuffer + layout.recordStride ≤ plan.requestBytes := by
    obtain ⟨first, hfirst⟩ := hplanned plan hplan
    obtain ⟨candidate, hcandidate, hlist, hlow, hhigh, hrecord⟩ := hfirst.item hitem
    have hslot := layout.slot_end_le candidate.offset
    refine ⟨candidate, hcandidate, hlist, ?_, ?_⟩
    · rw [hfirst.alignedOffset, hrecord, ← Nat.add_assoc, ← Nat.add_mul, Nat.add_sub_cancel' hlow]
    · rw [hfirst.requestBytes, hrecord]
      calc (candidate.offset / layout.recordsPerPage - first) * layout.pageSize +
            candidate.offset % layout.recordsPerPage * layout.recordStride + layout.recordStride
          ≤ (candidate.offset / layout.recordsPerPage - first) * layout.pageSize +
            layout.pageSize := by omega
        _ = (candidate.offset / layout.recordsPerPage - first + 1) * layout.pageSize :=
          (Nat.succ_mul _ _).symm
        _ ≤ plan.pageCount * layout.pageSize := Nat.mul_le_mul_right _ (by omega)
  constructor
  · exact honce
  · exact hplaced
  · intro call hlayout bytes heap plan hplan item hitem
    obtain ⟨-, -, -, -, hinside⟩ := hplaced plan hplan item hitem
    rw [RefineCall.processCandidate, if_neg]
    rw [hlayout, RecordLayout.recordStride] at *
    omega
  · intro plan hplan
    obtain ⟨first, hfirst⟩ := hplanned plan hplan
    rw [hfirst.firstPage_eq]
    exact ⟨hfirst.alignedOffset, hfirst.requestBytes⟩
  · rw [List.nodup_flatMap]
    exact ⟨fun plan _ => ReadPlan.pages_nodup, hapart.imp fun h => h.disjoint⟩
  · intro page
    rw [List.mem_flatMap]
    constructor
    · rintro ⟨plan, hplan, hpage⟩
      exact htouched plan hplan page hpage
    · rintro ⟨candidate, hmem, rfl⟩
      -- The plan that holds the candidate's index reads its page.
      obtain ⟨i, hi, rfl⟩ := List.mem_iff_getElem.mp hmem
      have hindex := honce.symm.subset (List.mem_range.mpr hi)
      obtain ⟨item, hitem, rfl⟩ := List.mem_map.mp hindex
      obtain ⟨plan, hplan, hitem⟩ := List.mem_flatMap.mp hitem
      obtain ⟨first, hfirst⟩ := hplanned plan hplan
      obtain ⟨candidate, hcandidate, hlist, hlow, hhigh, -⟩ := hfirst.item hitem
      rw [List.getElem?_eq_getElem hi, Option.some.injEq] at hcandidate
      rw [hcandidate]
      exact ⟨plan, hplan, ReadPlan.mem_pages.mpr
        ⟨hlist, by rw [hfirst.firstPage_eq]; exact hlow, by rw [hfirst.firstPage_eq]; exact hhigh⟩⟩
  · exact hapart
  · intro size hsize plan hplan
    obtain ⟨first, hfirst⟩ := hplanned plan hplan
    obtain ⟨location, hlocation, hlist, hlast⟩ := hfirst.lastPage
    obtain ⟨candidate, hcandidate, heq⟩ := RecordLayout.mem_locations hlocation
    have hoffset := div_lt_pageCount layout.recordsPerPage_pos
      (hsize candidate (List.mem_of_getElem? hcandidate))
    rw [heq] at hlist hlast
    change candidate.listNo = plan.listNo at hlist
    change candidate.offset / layout.recordsPerPage + 1 = first + plan.pageCount at hlast
    rw [hlist] at hoffset
    rw [hfirst.alignedOffset, hfirst.requestBytes, ← Nat.add_mul]
    exact Nat.mul_le_mul_right _ (by omega)

/-- Two candidates on one page, one on the next and one in another list. -/
theorem read_plans_cover_four :
    ∃ plans, PlansCover ⟨16, 4, by decide, by decide⟩
      [⟨1, 3, by decide, by decide⟩, ⟨0, 0, by decide, by decide⟩, ⟨1, 2, by decide, by decide⟩,
        ⟨1, 4, by decide, by decide⟩] plans := by
  have hplans : RecordLayout.buildReadPlans ⟨16, 4, by decide, by decide⟩
      [⟨1, 3, by decide, by decide⟩, ⟨0, 0, by decide, by decide⟩, ⟨1, 2, by decide, by decide⟩,
        ⟨1, 4, by decide, by decide⟩] =
      .ok [⟨0, 0, 16, 1, [⟨1, 0⟩]⟩, ⟨1, 16, 32, 2, [⟨0, 8⟩, ⟨2, 0⟩, ⟨3, 16⟩]⟩] := by
    rfl
  exact ⟨_, read_plans_cover hplans⟩

end Recast
