import Recast.Index.Runs

/-!
# Three stores, one map

What a client can rely on after any run: the directory, the record files and
the resident postings all hold the contents of the ledger, slot by slot.
-/

namespace Recast

open Foundation

variable {config : IndexConfig} {Vector : Type*}

/-- Slot `(l, o)` holds the row `id`: the directory names the slot, its record
has the ID and the payload, and its lanes have the code and the metadata. -/
structure SlotHolds (system : System) (l o id : Nat) (entry : Entry config) : Prop where
  list_lt : l < config.nlist
  offset_lt : o < (system.index.lists l).logicalSize
  list_eq : (DirectoryLayout.entryAt system.storage.directory id).listNo.toNat = l
  offset_eq : (DirectoryLayout.entryAt system.storage.directory id).offset.toNat = o
  record : ∃ file, system.storage.records l = some file ∧
    Record.idOf (config.records.paging.slotAt file o) = id ∧
    slice (config.records.paging.slotAt file o) 4 config.records.payloadBytes = entry.payload.bytes
  code : config.codes.unpackRow (system.index.lists l).packedCodes o = entry.posting.code
  metadata : Metadata.load (system.index.lists l).packedMetadata o = entry.posting.metadata

/-- The index implements the map of the ledger. -/
structure Implements (system : System) (ledger : Ledger config) : Prop where
  issued_once : ledger.issued.Nodup
  active_iff : ∀ id, (ledger.contents id).isSome ↔ id ∈ ledger.issued ∧ id ∉ ledger.erased
  active : ∀ id entry, ledger.contents id = some entry →
    ∃! slot : Nat × Nat, SlotHolds system slot.1 slot.2 id entry
  occupied : ∀ l o, o < (system.index.lists l).logicalSize →
    ∃! id, ∃ entry, ledger.contents id = some entry ∧ SlotHolds system l o id entry
  vacant : ∀ id < system.index.nextId, ledger.contents id = none →
    DirectoryLayout.entryAt system.storage.directory id = DiskLocation.tombstone
  fresh : ∀ id, system.index.nextId ≤ id → ledger.contents id = none
  count : system.index.activeCount =
    ∑ l ∈ Finset.range config.nlist, (system.index.lists l).logicalSize

section Agrees

variable {system : System} {rows : Rows config} {ledger : Ledger config}

/-- A row of the index holds its slot. -/
theorem Agrees.slotHolds (hagrees : Agrees system rows ledger) {l o : Nat} {row : Row config}
    (h : (rows l)[o]? = some row) : SlotHolds system l o row.id row.entry := by
  have hstored := hagrees.stored
  obtain ⟨hlist, -, -⟩ := hstored.slot_lt h
  obtain ⟨hlt, hget⟩ := List.getElem?_eq_some_iff.mp h
  have hslot := hstored.location_eq h
  rw [← (hagrees.located.located l o row h).2] at hslot
  obtain ⟨blocks, hholds⟩ := hstored.postings l
  have hposting := @MemoryList.Holds.posting_lt _ _ _ _ hholds o (by rwa [List.length_map])
  rw [List.getElem_map, hget] at hposting
  obtain ⟨file, hfile⟩ := hstored.file_exists
    (List.ne_nil_of_length_pos (Nat.zero_lt_of_lt hlt))
  have hrecord := (hstored.holds_exact rfl hfile).slot o (by rwa [List.length_map])
  rw [List.getElem_map, hget] at hrecord
  refine ⟨hlist, by rwa [hstored.size_eq], hslot.1, hslot.2, ⟨file, hfile, ?_, ?_⟩, ?_, ?_⟩
  · rw [hrecord, Record.idOf_encode]
    rfl
  · rw [hrecord, Record.encode_payload]
    rfl
  · exact congrArg Posting.code hposting
  · exact congrArg Posting.metadata hposting

/-- The row that holds a slot is the one stored there. -/
theorem Agrees.row_of_slot (hagrees : Agrees system rows ledger) {l o id : Nat} {entry : Entry config}
    (h : SlotHolds system l o id entry) :
    ∃ row, (rows l)[o]? = some row ∧ row.id = id ∧ row.entry = entry := by
  have hlt : o < (rows l).length := by
    have := h.offset_lt
    rwa [hagrees.stored.size_eq] at this
  have hrow := List.getElem?_eq_getElem hlt
  have hslot := hagrees.slotHolds hrow
  obtain ⟨file, hfile, hid, hpayload⟩ := h.record
  obtain ⟨file', hfile', hid', hpayload'⟩ := hslot.record
  obtain rfl := Option.some.inj (hfile.symm.trans hfile')
  refine ⟨_, hrow, hid'.symm.trans hid, Entry.ext (Payload.ext ?_) (Posting.ext ?_ ?_)⟩
  · exact hpayload'.symm.trans hpayload
  · exact hslot.code.symm.trans h.code
  · exact hslot.metadata.symm.trans h.metadata

theorem Agrees.implements (hagrees : Agrees system rows ledger) : Implements system ledger where
  issued_once := hagrees.tracks.issued_nodup
  active_iff := hagrees.tracks.active_iff
  active := by
    intro id entry hentry
    obtain ⟨l, row, hrow, rfl, rfl⟩ := (hagrees.tracks.contents id entry).mp hentry
    obtain ⟨o, ho⟩ := List.mem_iff_getElem?.mp hrow
    refine ⟨(l, o), hagrees.slotHolds ho, ?_⟩
    rintro ⟨l', o'⟩ hslot
    have hown := hagrees.slotHolds ho
    exact Prod.ext (hslot.list_eq.symm.trans hown.list_eq)
      (hslot.offset_eq.symm.trans hown.offset_eq)
  occupied := by
    intro l o ho
    rw [hagrees.stored.size_eq] at ho
    have hrow := List.getElem?_eq_getElem ho
    refine ⟨(rows l)[o].id, ⟨_, (hagrees.tracks.contents _ _).mpr
      ⟨l, _, List.mem_of_getElem? hrow, rfl, rfl⟩, hagrees.slotHolds hrow⟩, ?_⟩
    rintro id ⟨entry, -, hslot⟩
    obtain ⟨row, hrow', rfl, -⟩ := hagrees.row_of_slot hslot
    rw [Option.some.inj (hrow'.symm.trans hrow)]
  vacant := by
    intro id hid hnone
    refine hagrees.located.vacant id hid fun l row hrow heq => ?_
    have := (hagrees.tracks.contents id row.entry).mpr ⟨l, row, hrow, heq, rfl⟩
    rw [hnone] at this
    cases this
  fresh := by
    intro id hid
    cases hentry : ledger.contents id with
    | none => rfl
    | some entry =>
        obtain ⟨l, row, hrow, rfl, -⟩ := (hagrees.tracks.contents id entry).mp hentry
        have := hagrees.located.id_lt hrow
        omega
  count := by
    rw [hagrees.stored.active]
    exact Finset.sum_congr rfl fun l _ => (hagrees.stored.size_eq l).symm

/-- The active IDs are the IDs of the rows. -/
theorem Agrees.isSome_iff (hagrees : Agrees system rows ledger) {id : Nat} :
    (ledger.contents id).isSome ↔ ∃ l, ∃ row ∈ rows l, row.id = id := by
  rw [Option.isSome_iff_exists]
  constructor
  · rintro ⟨entry, hentry⟩
    obtain ⟨l, row, hrow, hid, -⟩ := (hagrees.tracks.contents id entry).mp hentry
    exact ⟨l, row, hrow, hid⟩
  · rintro ⟨l, row, hrow, hid⟩
    exact ⟨row.entry, (hagrees.tracks.contents id _).mpr ⟨l, row, hrow, hid, rfl⟩⟩

/-- Distinct active IDs are erased when no list has the reserved number. -/
theorem Agrees.eraseBatch_ok (hagrees : Agrees system rows ledger)
    (hlists : ∀ l, rows l ≠ [] → l ≠ uint32Max) {env : Environment}
    (hfaults : env.faults = IoFaults.none) {ids : List Nat} (hnodup : ids.Nodup)
    (hactive : ∀ id ∈ ids, (ledger.contents id).isSome) :
    (eraseBatch config env system ids).2 = .ok ids.length := by
  refine Recast.eraseBatch_ok hfaults hagrees.stored hagrees.located ⟨hnodup, fun id hid => ?_⟩
  obtain ⟨l, row, hrow, hrowId⟩ := hagrees.isSome_iff.mp (hactive id hid)
  obtain ⟨o, ho⟩ := List.mem_iff_getElem?.mp hrow
  exact ⟨l, o, row, ho, hrowId, hlists l (List.ne_nil_of_mem hrow), rfl⟩

/-- Distinct active IDs are refused as inactive when one of them lies in the
list with the reserved number. -/
theorem Agrees.eraseBatch_reserved (hagrees : Agrees system rows ledger) {env : Environment}
    (hfaults : env.faults = IoFaults.none) {ids : List Nat} (hnodup : ids.Nodup)
    (hactive : ∀ id ∈ ids, (ledger.contents id).isSome)
    (hreserved : ∃ row ∈ rows uint32Max, row.id ∈ ids) :
    eraseBatch config env system ids =
      (system, .error (.invalidArgument "deletion references an inactive location")) := by
  obtain ⟨row, hrow, hid⟩ := hreserved
  obtain ⟨o, ho⟩ := List.mem_iff_getElem?.mp hrow
  have hinside : ∀ id ∈ ids, id * 8 < system.storage.directory.length := by
    intro id hid
    obtain ⟨l, row, hrow, rfl⟩ := hagrees.isSome_iff.mp (hactive id hid)
    have := hagrees.located.id_lt hrow
    have := hagrees.located.covered
    omega
  have hentry : (DirectoryLayout.entryAt system.storage.directory row.id).active = false := by
    rw [(hagrees.located.located _ o row ho).2, ← Bool.not_eq_true, hagrees.stored.active_iff ho]
    exact fun h => h rfl
  have hread := DirectoryLayout.readBatch_ok hagrees.stored.aligned hinside
  have hcount := hagrees.stored.length_le_active hnodup fun id hid =>
    hagrees.isSome_iff.mp (hactive id hid)
  have hplan : planErase config IoFaults.none system ids =
      .error (.invalidArgument "deletion references an inactive location") := by
    rw [planErase, hread, ok_bind, locationLists_error ⟨_, List.mem_map_of_mem hid, hentry⟩,
      error_bind]
  simp only [eraseBatch, hfaults, hplan]
  rw [if_neg (List.ne_nil_of_mem hid), if_neg (Nat.not_lt.mpr hcount), if_neg (not_not.mpr hnodup)]

/-- A batch with a repeated or an inactive ID is refused and changes nothing. -/
theorem Agrees.eraseBatch_refused (hagrees : Agrees system rows ledger) {env : Environment}
    (hfaults : env.faults = IoFaults.none) {ids : List Nat}
    (hbad : ¬ids.Nodup ∨ ∃ id ∈ ids, ledger.contents id = none) :
    ∃ error, eraseBatch config env system ids = (system, .error error) := by
  rcases eraseBatch_spec env hagrees.stored ids with ⟨-, hdone⟩ | ⟨error, herror, hclean⟩
  · rcases hbad with hrepeated | ⟨id, hid, hnone⟩
    · exact absurd hdone.nodup hrepeated
    · obtain ⟨row, hrow, hrowId⟩ := hdone.row_of_id id hid
      have := hagrees.isSome_iff.mpr ⟨_, row, List.mem_of_getElem? hrow, hrowId⟩
      rw [hnone] at this
      cases this
  · exact ⟨error, Prod.ext (hclean hfaults hagrees.located).1 herror⟩

end Agrees

/-- Pages of one record and of one directory entry. -/
def onePerPage (nlist : Nat) (hpos : 0 < nlist) : IndexConfig where
  nlist := nlist
  nlist_pos := hpos
  codes := .oneByte
  records := .oneRecord
  directory := .oneEntry
  page_eq := rfl

/-- Every vector goes to list `l`. -/
def constantEncoder (config : IndexConfig) (l : UInt32) : Encoder config Unit where
  assign := fun _ => l
  encode := fun _ => Posting.empty config.codes

/-- A row with a payload of zeros. -/
def zeroRow (config : IndexConfig) : InputRow config Unit :=
  ⟨(), ⟨List.replicate config.records.payloadBytes 0, List.length_replicate⟩⟩

/-- No system call fails, and every loop runs on one worker. -/
def Environment.quiet : Environment := ⟨IoFaults.none, fun _ => false⟩

/-- After every run without I/O errors the index implements the map of its
ledger, and it refuses every batch with a repeated or an inactive ID. As long as
no call gives a row to list 2^32 - 1, it erases every batch of distinct active
IDs. -/
theorem index_agreement (encoder : Encoder config Vector) {system : System}
    {ledger : Ledger config}
    (hreachable : Reachable encoder (fun system env operation =>
      NoIoError encoder system env operation ∧ ∀ l ∈ operation.lists encoder, l ≠ uint32Max)
      system ledger) :
    Implements system ledger ∧
      ∀ (env : Environment) (ids : List Nat), env.faults = IoFaults.none →
        (ids ≠ [] → ids.Nodup → (∀ id ∈ ids, (ledger.contents id).isSome) →
          (eraseBatch config env system ids).2 = .ok ids.length) ∧
        (¬ids.Nodup ∨ (∃ id ∈ ids, ledger.contents id = none) →
          ∃ error, eraseBatch config env system ids = (system, .error error)) := by
  obtain ⟨rows, hagrees, hlists⟩ := hreachable.agrees (· ≠ uint32Max)
    fun _ _ _ hrule => ⟨Or.inr hrule.1, hrule.2⟩
  refine ⟨hagrees.implements, fun env ids hfaults => ⟨fun _ hnodup hactive => ?_, fun hbad => ?_⟩⟩
  · exact hagrees.eraseBatch_ok hlists hfaults hnodup hactive
  · exact hagrees.eraseBatch_refused hfaults hbad

/-- Two lists, and two records and two directory entries a page. -/
def twoLists : IndexConfig where
  nlist := 2
  nlist_pos := Nat.two_pos
  codes := .oneByte
  records := .twoPerPage
  directory := ⟨16, by decide, by decide⟩
  page_eq := rfl

/-- A byte goes to the list of its parity and is its own code. -/
def byteEncoder : Encoder twoLists UInt8 where
  assign := fun v => (v % 2).toUInt32
  encode := fun v => ⟨⟨[v], rfl⟩, v, v + 1, v + 2⟩

/-- A byte with four copies of it as the payload. -/
def byteRow (v : UInt8) : InputRow twoLists UInt8 := ⟨v, [v, v, v, v], rfl⟩

/-- Three rows for the even list and two for the odd one. -/
def fiveBytes : List (InputRow twoLists UInt8) := [0x12, 0x21, 0x34, 0x43, 0x56].map byteRow

def fiveRows : System := (Operation.run byteEncoder .quiet System.fresh (.insert fiveBytes)).1

theorem run_fiveBytes :
    (Operation.run byteEncoder .quiet System.fresh (.insert fiveBytes)).2 = .ok [0, 1, 2, 3, 4] := by
  decide +kernel

/-- The first row is erased; the last row of its list takes the slot. -/
def fourRows : System := (Operation.run byteEncoder .quiet fiveRows (.erase [0])).1

theorem run_eraseFirst : (Operation.run byteEncoder .quiet fiveRows (.erase [0])).2 = .ok [] := by
  decide +kernel

def fiveRowsLedger : Ledger twoLists :=
  Ledger.empty.record byteEncoder (.insert fiveBytes) (.ok [0, 1, 2, 3, 4])

def fourRowsLedger : Ledger twoLists := fiveRowsLedger.record byteEncoder (.erase [0]) (.ok [])

theorem reachable_fiveRows {rule : StepRule twoLists UInt8}
    (hinsert : rule System.fresh .quiet (.insert fiveBytes)) :
    Reachable byteEncoder rule fiveRows fiveRowsLedger := by
  rw [fiveRowsLedger, ← run_fiveBytes]
  exact Reachable.step .quiet (.insert fiveBytes) .fresh hinsert

theorem reachable_fourRows {rule : StepRule twoLists UInt8}
    (hinsert : rule System.fresh .quiet (.insert fiveBytes))
    (herase : rule fiveRows .quiet (.erase [0])) :
    Reachable byteEncoder rule fourRows fourRowsLedger := by
  rw [fourRowsLedger, ← run_eraseFirst]
  exact Reachable.step .quiet (.erase [0]) (reachable_fiveRows hinsert) herase

/-- The deletion has kept the map: row 4 has the slot of row 0. A batch from both
lists can be erased, and one with the erased ID cannot. -/
theorem index_agreement_moved_row :
    Implements fourRows fourRowsLedger ∧
      fourRowsLedger.contents 4 = some (byteEncoder.entry (byteRow 0x56)) ∧
      SlotHolds fourRows 0 0 4 (byteEncoder.entry (byteRow 0x56)) ∧
      (eraseBatch twoLists .quiet fourRows [4, 3]).2 = .ok 2 ∧
      ∃ error, eraseBatch twoLists .quiet fourRows [3, 0] = (fourRows, .error error) := by
  have hreachable := @reachable_fourRows
    (fun system env operation => NoIoError byteEncoder system env operation ∧
      ∀ l ∈ operation.lists byteEncoder, l ≠ uint32Max)
    ⟨⟨rfl, fun error herror => by rw [run_fiveBytes] at herror; cases herror⟩, by decide⟩
    ⟨⟨rfl, fun error herror => by rw [run_eraseFirst] at herror; cases herror⟩, by decide⟩
  obtain ⟨himplements, herase⟩ := index_agreement byteEncoder hreachable
  have hcontents : fourRowsLedger.contents 4 = some (byteEncoder.entry (byteRow 0x56)) := by
    decide +kernel
  refine ⟨himplements, hcontents, ?_, ?_, ?_⟩
  · obtain ⟨⟨l, o⟩, hslot, -⟩ := himplements.active 4 _ hcontents
    have hlocation : DirectoryLayout.entryAt fourRows.storage.directory 4 = ⟨0, 0⟩ := by
      decide +kernel
    obtain rfl : 0 = l :=
      (congrArg (fun location => location.listNo.toNat) hlocation).symm.trans hslot.list_eq
    obtain rfl : 0 = o :=
      (congrArg (fun location => location.offset.toNat) hlocation).symm.trans hslot.offset_eq
    exact hslot
  · exact (herase .quiet [4, 3] rfl).1 (by decide) (by decide) (by decide +kernel)
  · exact (herase .quiet [3, 0] rfl).2 (.inr ⟨0, by decide, by decide +kernel⟩)

/-! ### The list with the reserved number -/

/-- As many lists as there are 32-bit numbers. -/
def widestConfig : IndexConfig := onePerPage (2 ^ 32) (by norm_num)

/-- Every row goes to the last of them. -/
def lastListEncoder : Encoder widestConfig Unit :=
  constantEncoder widestConfig (UInt32.ofNat uint32Max)

/-- The last list accepts a row. -/
theorem insert_last_list :
    (insertBatch lastListEncoder .quiet System.fresh [zeroRow widestConfig]).2 = .ok [0] := by
  have hassign : assignmentsOf lastListEncoder [zeroRow widestConfig] = [uint32Max] := rfl
  obtain ⟨plan, hplan⟩ := @planInsert_ok _ _ lastListEncoder System.fresh.index
    [zeroRow widestConfig] (by decide) (by decide) (by decide) (by decide)
    (by rw [hassign]; decide)
  have hplanned := planned_of_eq_ok hplan
  have hlists : plan.touchedLists = [uint32Max] := by
    refine List.perm_singleton.mp ((List.perm_ext_iff_of_nodup hplanned.nodup
      (List.nodup_singleton _)).mpr fun l => ?_)
    rw [hplanned.mem_touched, hassign]
  obtain ⟨added, hadded⟩ : ∃ added, segmentRows plan (generateRows lastListEncoder
      System.fresh.index.nextId [zeroRow widestConfig]) = added := ⟨_, rfl⟩
  have hrows : added uint32Max =
      generateRows lastListEncoder System.fresh.index.nextId [zeroRow widestConfig] := by
    rw [← hadded, hplanned.segment _ (by rw [hlists]; exact List.mem_singleton_self _), hassign]
    rfl
  rw [insertBatch_of_plan (by simp) hplan (stored_fresh widestConfig) hplanned.nodup hadded, hlists]
  · simp only [insertUpdates, hlists, hadded, List.flatMap_cons, List.flatMap_nil, reserved,
      appended, published, parallelFor, id, hrows]
    clear hadded hrows hlists hplanned hplan
    decide +kernel
  · intro l hl
    rw [hlists, List.mem_singleton] at hl
    rw [hl, hrows]
    decide

/-- A run without I/O errors after which an active ID cannot be erased. -/
theorem index_agreement_fails : ∃ (system : System) (ledger : Ledger widestConfig),
    Reachable lastListEncoder (NoIoError lastListEncoder) system ledger ∧
      (ledger.contents 0).isSome ∧ eraseBatch widestConfig .quiet system [0] =
        (system, .error (.invalidArgument "deletion references an inactive location")) := by
  have hinsert := insert_last_list
  have hassign : assignmentsOf lastListEncoder [zeroRow widestConfig] = [uint32Max] := rfl
  obtain ⟨row, hrow, hid⟩ : ∃ row ∈ insertRows lastListEncoder System.fresh.index.nextId
      [zeroRow widestConfig] (fun _ => []) uint32Max, row.id ∈ [0] := by
    rw [insertRows, hassign]
    exact ⟨_, List.mem_append_right _ (mem_batchRows.mpr ⟨0, List.getElem?_cons_zero, rfl⟩),
      List.mem_singleton_self 0⟩
  have hclean : NoIoError lastListEncoder System.fresh .quiet
      (.insert [zeroRow widestConfig]) := ⟨rfl, fun error herror => by
    rw [Operation.run, hinsert] at herror
    cases herror⟩
  have hreachable := @Reachable.step _ _ lastListEncoder _ _ _ .quiet _ .fresh hclean
  rcases insertBatch_spec .quiet (stored_fresh widestConfig) lastListEncoder
    [zeroRow widestConfig] with ⟨hok, hdone⟩ | ⟨error, extra, herror, -⟩
  · have hagrees := (agrees_fresh widestConfig).insert hdone
    have hactive : ((Ledger.empty.record lastListEncoder (.insert [zeroRow widestConfig])
        (Operation.run lastListEncoder .quiet System.fresh
          (.insert [zeroRow widestConfig])).2).contents 0).isSome := by
      rw [Operation.run, hinsert]
      rfl
    refine ⟨_, _, hreachable, hactive, ?_⟩
    rw [Operation.run, hok] at hactive
    exact hagrees.eraseBatch_reserved rfl (List.nodup_singleton 0)
      (fun id hid => List.mem_singleton.mp hid ▸ hactive) ⟨row, hrow, hid⟩
  · cases hinsert.symm.trans herror

/-! ### Packed buffers -/

/-- The buffers of a list are the canonical packing of its postings, followed
by empty lanes. -/
structure Canonical (list : MemoryList) (postings : List (Posting config.codes)) : Prop where
  size : list.logicalSize = postings.length
  codes : list.packedCodes.take (roundUpBlock postings.length * config.codes.codeSize) =
    config.codes.packCodesRange (postings.map Posting.code ++ List.replicate
      (roundUpBlock postings.length - postings.length) (Code.zero config.codes)) 0
      (List.replicate (roundUpBlock postings.length * config.codes.codeSize) 0)
  metadata : list.packedMetadata.take (roundUpBlock postings.length * 3) =
    Metadata.packBlocks (postings.map Posting.metadata) (roundUpBlock postings.length)
  lanes : ∃ blocks, list.packedCodes.length = blocks * config.codes.blockBytes ∧
    list.packedMetadata.length = blocks * Metadata.kMetadataBlockBytes ∧
    ∀ row, postings.length ≤ row → row < blocks * kUpdateBlockSize →
      config.codes.unpackRow list.packedCodes row = Code.zero config.codes ∧
      Metadata.load list.packedMetadata row = Metadata.empty

theorem canonical_of_holds {list : MemoryList} {postings : List (Posting config.codes)}
    {blocks : Nat} (hholds : MemoryList.Holds config.codes list postings blocks) :
    Canonical list postings where
  size := hholds.size
  codes := hholds.codes_canonical
  metadata := hholds.metadata_canonical
  lanes := ⟨blocks, hholds.codes_length, hholds.metadata_length, fun _ hrow hlt =>
    ⟨hholds.code_zero hrow hlt, hholds.metadata_empty hrow hlt⟩⟩

/-- After every run of calls that return, each list is the canonical packing of
the postings its slots were given, and no later insertion finds a lane in use. -/
theorem posting_canonicity (encoder : Encoder config Vector) {system : System}
    {ledger : Ledger config} (hreachable : Reachable encoder (Succeeds encoder) system ledger)
    (l : Nat) : ∃ postings : List (Posting config.codes),
      Canonical (system.index.lists l) postings ∧
      (∀ o posting, postings[o]? = some posting → ∃ id entry,
        ledger.contents id = some entry ∧ SlotHolds system l o id entry ∧
          entry.posting = posting) ∧
      ∀ added : List (Posting config.codes),
        let reserved := (system.index.lists l).reserve config.codes added.length
        (∃ message, reserved.2 = .error (.overflow message)) ∨
          reserved.2 = .ok () ∧ (reserved.1.append added).2 = .ok () := by
  obtain ⟨rows, hagrees, -⟩ := hreachable.agrees (fun _ => True)
    fun _ _ _ hrule => ⟨Or.inl hrule, fun _ _ => trivial⟩
  obtain ⟨blocks, hholds⟩ := hagrees.stored.postings l
  refine ⟨_, canonical_of_holds hholds, fun o posting ho => ?_, hholds.never_refused⟩
  rw [List.getElem?_map, Option.map_eq_some_iff] at ho
  obtain ⟨row, hrow, rfl⟩ := ho
  exact ⟨row.id, row.entry, (hagrees.tracks.contents _ _).mpr
    ⟨l, row, List.mem_of_getElem? hrow, rfl, rfl⟩, hagrees.slotHolds hrow, rfl⟩

/-- The lane of the erased row is the one of the row that moved there. -/
theorem posting_canonicity_moved_row : @Canonical twoLists (fourRows.index.lists 0)
    [⟨⟨[0x56], rfl⟩, 0x56, 0x57, 0x58⟩, ⟨⟨[0x34], rfl⟩, 0x34, 0x35, 0x36⟩] := by
  have hreachable := @reachable_fourRows (Succeeds byteEncoder) ⟨_, run_fiveBytes⟩
    ⟨_, run_eraseFirst⟩
  obtain ⟨postings, hcanonical, hslots, -⟩ := posting_canonicity byteEncoder hreachable 0
  have hlength : 2 = postings.length := by
    rw [← hcanonical.size]
    decide +kernel
  -- each posting is the one its lane unpacks to
  have heq : (List.range 2).map ((fourRows.index.lists 0).posting twoLists.codes) = postings := by
    refine List.ext_getElem (by simpa using hlength) fun o ho hlt => ?_
    obtain ⟨id, entry, -, hslot, hentry⟩ := hslots o _ (List.getElem?_eq_getElem hlt)
    rw [List.getElem_map, List.getElem_range, ← hentry]
    exact Posting.ext hslot.code hslot.metadata
  rw [← heq] at hcanonical
  have hlanes : (List.range 2).map ((fourRows.index.lists 0).posting twoLists.codes) =
      [⟨⟨[0x56], rfl⟩, 0x56, 0x57, 0x58⟩, ⟨⟨[0x34], rfl⟩, 0x34, 0x35, 0x36⟩] := by
    decide +kernel
  rwa [hlanes] at hcanonical

end Recast
