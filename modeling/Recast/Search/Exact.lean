import Recast.Search.Tokens
import Recast.Index.Agreement

/-!
# The records behind the tokens

In every state a run leads to, each probed slot holds an active row, and the
refiner reads the payload the row was inserted with.
-/

namespace Recast

open Foundation

variable {config : IndexConfig} {system : System} {rows : Rows config} {ledger : Ledger config}

/-- The exact result for an active ID. -/
def Ledger.neighbor (ledger : Ledger config) (distance : Bytes → Float32) (id : Nat) : Neighbor :=
  ⟨id, (ledger.contents id).elim 0 fun entry => distance entry.payload.bytes⟩

/-- The IDs of the probed slots, in scan order. -/
def Probed (system : System) (ledger : Ledger config) (selected : List UInt32) (ids : List Nat) :
    Prop :=
  List.Forall₂ (fun slot id => ∃ entry, ledger.contents id = some entry ∧
    SlotHolds system slot.1 slot.2 id entry) (probedSlots system.index selected) ids

theorem Agrees.exists_probed (hagrees : Agrees system rows ledger) (selected : List UInt32) :
    ∃ ids, Probed system ledger selected ids := by
  have hslots : ∀ slot ∈ probedSlots system.index selected, ∃ id entry,
      ledger.contents id = some entry ∧ SlotHolds system slot.1 slot.2 id entry :=
    fun slot hslot =>
      (hagrees.implements.occupied slot.1 slot.2 (mem_probedSlots.mp hslot).2).exists
  unfold Probed
  generalize probedSlots system.index selected = slots at hslots
  induction slots with
  | nil => exact ⟨[], List.Forall₂.nil⟩
  | cons slot rest ih =>
      obtain ⟨id, hid⟩ := hslots slot List.mem_cons_self
      obtain ⟨ids, hids⟩ := ih fun slot hslot => hslots slot (List.mem_cons_of_mem _ hslot)
      exact ⟨id :: ids, List.Forall₂.cons hid hids⟩

namespace Probed

variable {selected : List UInt32} {ids : List Nat} (h : Probed system ledger selected ids)
include h

theorem length_eq : (probedSlots system.index selected).length = ids.length :=
  List.Forall₂.length_eq h

theorem get {token : Nat} {slot : Nat × Nat}
    (hslot : (probedSlots system.index selected)[token]? = some slot) :
    ∃ id, ids[token]? = some id ∧ ∃ entry, ledger.contents id = some entry ∧
      SlotHolds system slot.1 slot.2 id entry := by
  obtain ⟨hlt, rfl⟩ := List.getElem?_eq_some_iff.mp hslot
  have hlt' : token < ids.length := h.length_eq ▸ hlt
  exact ⟨ids[token], List.getElem?_eq_getElem hlt', (List.forall₂_iff_get.mp h).2 token hlt hlt'⟩

/-- Every probed ID is active, in a slot of a probed list. -/
theorem mem {id : Nat} (hid : id ∈ ids) : ∃ slot ∈ probedSlots system.index selected, ∃ entry,
    ledger.contents id = some entry ∧ SlotHolds system slot.1 slot.2 id entry := by
  obtain ⟨token, hlt, rfl⟩ := List.mem_iff_getElem.mp hid
  have hlt' : token < (probedSlots system.index selected).length := h.length_eq.symm ▸ hlt
  exact ⟨_, List.getElem_mem hlt', (List.forall₂_iff_get.mp h).2 token hlt' hlt⟩

/-- Distinct lists hold distinct IDs. -/
theorem nodup (hselected : selected.Nodup) : ids.Nodup := by
  refine (List.rel_nodup ⟨?_, ?_⟩ h).mp (nodup_probedSlots hselected)
  · rintro slot id slot' ⟨_, -, hslot⟩ ⟨_, -, hslot'⟩
    exact Prod.ext (hslot.list_eq.symm.trans hslot'.list_eq)
      (hslot.offset_eq.symm.trans hslot'.offset_eq)
  · rintro slot id id' ⟨_, -, hslot⟩ ⟨_, -, hslot'⟩
    obtain ⟨file, hfile, hid, -⟩ := hslot.record
    obtain ⟨file', hfile', hid', -⟩ := hslot'.record
    obtain rfl := Option.some.inj (hfile.symm.trans hfile')
    exact hid.symm.trans hid'

end Probed

/-! ### Refining stored slots -/

/-- The files of a refinement. -/
abbrev Storage.files (storage : Storage) : Nat → Bytes := fun l => (storage.records l).getD []

/-- The refiner computes the distance of the payload the row was inserted with. -/
theorem SlotHolds.neighborOf_eq {candidate : ListCandidate} {id : Nat} {entry : Entry config}
    (h : SlotHolds system candidate.listNo candidate.offset id entry)
    (hcontents : ledger.contents id = some entry) (distance : Bytes → Float32) :
    config.records.neighborOf distance system.storage.files candidate =
      ledger.neighbor distance id := by
  obtain ⟨file, hfile, hid, hpayload⟩ := h.record
  rw [RecordLayout.neighborOf, Storage.files, hfile, Option.getD_some, hpayload, Ledger.neighbor,
    hcontents]
  exact congrArg (fun id => Neighbor.mk id _) hid

/-- The pages of occupied slots are in their files. -/
theorem Stored.readable (hstored : Stored system rows fun _ => 0) {candidates : List ListCandidate}
    (hslots : ∀ candidate ∈ candidates,
      candidate.offset < (system.index.lists candidate.listNo).logicalSize) :
    ∀ location ∈ config.records.locations candidates,
      config.records.Readable system.storage.files location := by
  intro location hlocation
  obtain ⟨candidate, hcandidate, hlocation⟩ := RecordLayout.mem_locations hlocation
  have hoffset := hslots candidate (List.mem_of_getElem? hcandidate)
  rw [hstored.size_eq] at hoffset
  have hholds := hstored.records candidate.listNo
  have hpage := hholds.page_lt (i := candidate.offset) (by rwa [List.length_map])
  rw [hlocation]
  refine ⟨?_, hholds.le_off⟩
  change (candidate.offset / config.records.recordsPerPage + 1) * _ ≤
    ((system.storage.records candidate.listNo).getD []).length
  rw [hholds.length_eq]
  exact Nat.mul_le_mul_right _ hpage

variable {candidates : List ListCandidate} {topk : Nat} {distanceFunction : ExactDistanceFunction}

/-- Every file of a refinement of occupied slots exists. -/
theorem Stored.opens (hstored : Stored system rows fun _ => 0) {options : ListFileRefineOptions}
    {query : List Float32} {dimension : Nat} {call : RefineCall}
    (hplanned : planRefine config.records config.nlist options query dimension candidates topk
      distanceFunction = .ok call)
    (hrows : ∀ candidate ∈ candidates, rows candidate.listNo ≠ []) :
    Searcher.openFiles system.storage.records call.lists = .ok system.storage.files := by
  refine if_neg ?_
  -- the plans read only lists of candidates
  rintro ⟨listNo, hlist, hmissing⟩
  obtain ⟨hplans, hcall⟩ := planRefine_eq_ok hplanned
  rw [hcall] at hlist
  obtain ⟨plan, hplan, rfl⟩ := mem_distinctLists.mp hlist
  obtain ⟨first, hfirst⟩ := (RecordLayout.buildReadPlans_spec hplans).2.1 plan hplan
  obtain ⟨location, hlocation, hplanList, -⟩ := hfirst.lastPage
  obtain ⟨candidate, hcandidate, hlocation⟩ := RecordLayout.mem_locations hlocation
  obtain ⟨file, hfile⟩ := hstored.file_exists (hrows candidate (List.mem_of_getElem? hcandidate))
  have hsame : plan.listNo = candidate.listNo := by
    rw [← hplanList, hlocation]
    rfl
  rw [hsame, hfile] at hmissing
  cases hmissing

/-- Refining occupied slots opens every file, reads every record and lists the
smallest pairs. -/
theorem Stored.refines (hstored : Stored system rows fun _ => 0)
    (options : ListFileRefineOptions) (query : List Float32) {dimension : Nat}
    (hdimension : 0 < dimension) (htopk : 0 < topk) (hcount : topk ≤ candidates.length)
    (hslots : ∀ candidate ∈ candidates,
      candidate.offset < (system.index.lists candidate.listNo).logicalSize)
    (hvalid : ∀ candidate ∈ candidates, (config.records.neighborOf
      (fun payload => distanceFunction query payload dimension) system.storage.files
      candidate).Valid) :
    ∃ call listed, planRefine config.records config.nlist options query dimension candidates topk
        distanceFunction = .ok call ∧
      Searcher.openFiles system.storage.records call.lists = .ok system.storage.files ∧
      call.refine system.storage.files = .ok listed ∧
      TopPairs topk (candidates.map (config.records.neighborOf
        (fun payload => distanceFunction query payload dimension) system.storage.files)) listed := by
  have hrows : ∀ candidate ∈ candidates, rows candidate.listNo ≠ [] := by
    intro candidate hcandidate
    have hoffset := hslots candidate hcandidate
    rw [hstored.size_eq] at hoffset
    exact List.ne_nil_of_length_pos (Nat.zero_lt_of_lt hoffset)
  have hreadable := hstored.readable hslots
  obtain ⟨plans, hplanned⟩ := RefineCall.planRefine_readable query distanceFunction
    hdimension.ne' htopk.ne' hcount
    (fun candidate hcandidate => (hstored.outside _ (hrows candidate hcandidate)).1) hreadable
  have hreads := RefineCall.planRefine_reads (hplanned options) hreadable
  exact ⟨_, _, hplanned options, hstored.opens (hplanned options) hrows, hreads.refine hvalid,
    hreads.topPairs hvalid (List.Perm.refl _)⟩

end Recast
