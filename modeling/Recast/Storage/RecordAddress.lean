import Recast.Foundation.Decimal
import Recast.Storage.RecordStore
import Mathlib.Order.Interval.Set.Disjoint
import Mathlib.Order.CompletePartialOrder

/-!
# Record addresses

The machine arithmetic of the record store: the stride and the page capacity its
constructor computes, the path of a list, and where an append puts a record and
a lookup finds its ID. The constructor does not see a stride that has wrapped,
nor a divisor that one of the 32-bit casts will change.
-/

namespace Recast

open Foundation

structure ListFileStoreOptions where
  pageSize : UInt64
  payloadBytes : UInt64
  listsPerShard : UInt64
  directIo : Bool
  syncWrites : Bool
  deriving DecidableEq

/-- What the constructor finds: the platform, and whether the directory of the
record files is there. -/
structure StoreHost where
  littleEndian : Bool
  linuxAio : Bool
  recordsDirectory : Bool
  deriving DecidableEq

structure ListFileRecordStore where
  root : String
  nlist : UInt64
  options : ListFileStoreOptions
  recordStride : UInt64
  recordsPerPage : UInt64
  deriving DecidableEq

/-- `is_power_of_two`. -/
def isPowerOfTwo (value : UInt64) : Bool := value != 0 && (value &&& (value - 1)) == 0

/-- A page, and the first byte of a record in it. -/
@[ext] structure Place where
  page : UInt64
  inPage : UInt64
  deriving DecidableEq

/-- The values of a loop from `first` up to `last`. -/
def countUp (first last : UInt64) : List UInt64 :=
  (List.range' first.toNat (last.toNat - first.toNat)).map UInt64.ofNat

/-- `path / name`. -/
def joinPath (path name : List Char) : List Char :=
  if path.getLast? = some '/' then path ++ name else path ++ '/' :: name

namespace ListFileRecordStore

/-- The constructor. -/
def create (host : StoreHost) (root : String) (nlist : UInt64) (options : ListFileStoreOptions)
    (create : Bool) : Except Error ListFileRecordStore :=
  let recordStride := 4 + options.payloadBytes
  let recordsPerPage := if recordStride = 0 then 0 else options.pageSize / recordStride
  if root = "" ∨ nlist = 0 ∨ options.payloadBytes = 0 ∨ options.listsPerShard = 0 ∨
      isPowerOfTwo options.pageSize = false ∨ options.pageSize < 8 ∨
      options.pageSize < recordStride ∨ recordsPerPage = 0 ∨ host.littleEndian = false then
    .error (.invalidArgument "invalid list-file record-store layout") else
  if options.directIo = true ∧ host.linuxAio = false then
    .error (.invalidArgument
      "O_DIRECT external-list storage is available only in Linux builds") else
  if create = false ∧ host.recordsDirectory = false then
    .error (.invalidArgument "list-file record directory does not exist") else
  .ok ⟨root, nlist, options, recordStride, recordsPerPage⟩

variable (store : ListFileRecordStore)

/-- `list_no / static_cast<uint32_t>(lists_per_shard)`; nothing divides by zero. -/
def shard (listNo : UInt32) : Option UInt32 :=
  let listsPerShard := store.options.listsPerShard.toUInt32
  if listsPerShard = 0 then none else some (listNo / listsPerShard)

/-- `list_path`. -/
def listPath (listNo : UInt32) : Except Error (Option String) :=
  if store.nlist ≤ listNo.toUInt64 then .error (.outOfRange "IVF list number is invalid") else
  .ok ((store.shard listNo).map fun shard =>
    let records := joinPath store.root.toList "records".toList
    let directory := joinPath records (decimal 6 shard.toNat)
    String.ofList (joinPath directory ("list_".toList ++ decimal 8 listNo.toNat ++ ".bin".toList)))

/-- `page_count`, in machine words. -/
def pageCount (rows : UInt64) : UInt64 :=
  if rows = 0 then 0 else 1 + (rows - 1) / store.recordsPerPage

/-- The rows that an append writes to one page, with their places. -/
def pagePlaces (oldSize newSize : UInt32) (page : UInt64) : List (UInt64 × Place) :=
  let pageFirst := page * store.recordsPerPage
  let first := max oldSize.toUInt64 pageFirst
  let last := min newSize.toUInt64 (pageFirst + store.recordsPerPage)
  (countUp first last).map fun row => (row, ⟨page, (row - pageFirst) * store.recordStride⟩)

/-- The page loop of `append_records`: every row, with the place it is written
to. -/
def appendPlaces (oldSize newSize : UInt32) : List (UInt64 × Place) :=
  let firstPage := oldSize.toUInt64 / store.recordsPerPage
  (countUp firstPage (store.pageCount newSize.toUInt64)).flatMap
    (store.pagePlaces oldSize newSize)

/-- Where `read_logical_ids` looks for the ID of a row. -/
def readPlace (offset : UInt32) : Option Place :=
  let recordsPerPage := store.recordsPerPage.toUInt32
  if recordsPerPage = 0 then none else
  some ⟨(offset / recordsPerPage).toUInt64,
    (offset.toUInt64 % store.recordsPerPage) * store.recordStride⟩

/-- The place of a row: its lane, in its page. -/
def place (row : UInt64) : Place :=
  ⟨row / store.recordsPerPage, (row % store.recordsPerPage) * store.recordStride⟩

/-- The bytes of a page that a record takes: its ID and its payload. -/
def recordBytes (inPage : UInt64) : Set ℕ :=
  Set.Ico inPage.toNat (inPage.toNat + (4 + store.options.payloadBytes.toNat))

/-- Sound addressing of records and lists. -/
structure Addresses (store : ListFileRecordStore) : Prop where
  stride : store.recordStride.toNat = 4 + store.options.payloadBytes.toNat
  inside : ∀ slot < store.recordsPerPage,
    store.recordBytes (slot * store.recordStride) ⊆ Set.Iio store.options.pageSize.toNat
  disjoint : ∀ slot < store.recordsPerPage, ∀ slot' < store.recordsPerPage, slot ≠ slot' →
    Disjoint (store.recordBytes (slot * store.recordStride))
      (store.recordBytes (slot' * store.recordStride))
  injective : Function.Injective fun offset : UInt32 =>
    ((store.place offset.toUInt64).page, store.recordBytes (store.place offset.toUInt64).inPage)
  divides : ∀ listNo : UInt32, listNo.toUInt64 < store.nlist → (store.shard listNo).isSome
  paths : ∀ listNo listNo' : UInt32, listNo.toUInt64 < store.nlist →
    listNo'.toUInt64 < store.nlist → store.listPath listNo = store.listPath listNo' →
    listNo = listNo'
  appends : ∀ oldSize newSize row place, oldSize < newSize →
    ((row, place) ∈ store.appendPlaces oldSize newSize ↔
      oldSize.toNat ≤ row.toNat ∧ row.toNat < newSize.toNat ∧ place = store.place row)
  reads : ∀ offset : UInt32, store.readPlace offset = some (store.place offset.toUInt64)

end ListFileRecordStore

/-- The stride does not wrap, and no cast changes a divisor to zero or to less. -/
def ListFileStoreOptions.Fits (options : ListFileStoreOptions) : Prop :=
  4 + options.payloadBytes.toNat < 2 ^ 64 ∧ ¬2 ^ 32 ∣ options.listsPerShard.toNat ∧
    options.pageSize.toNat / (4 + options.payloadBytes.toNat) < 2 ^ 32

instance (options : ListFileStoreOptions) : Decidable options.Fits :=
  inferInstanceAs (Decidable (_ ∧ _ ∧ _))

namespace ListFileRecordStore

variable {host : StoreHost} {root : String} {nlist : UInt64} {options : ListFileStoreOptions}
  {createRoot : Bool} {store : ListFileRecordStore}

/-- What the constructor has checked of a store it returned. -/
structure Accepted (options : ListFileStoreOptions) (nlist : UInt64) (store : ListFileRecordStore) :
    Prop where
  options_eq : store.options = options
  nlist_eq : store.nlist = nlist
  nlist_pos : 0 < nlist.toNat
  power : isPowerOfTwo options.pageSize = true
  stride_eq : store.recordStride.toNat = (4 + options.payloadBytes.toNat) % 2 ^ 64
  stride_le : store.recordStride.toNat ≤ options.pageSize.toNat
  stride_pos : 0 < store.recordStride.toNat
  perPage_eq : store.recordsPerPage.toNat = options.pageSize.toNat / store.recordStride.toNat
  perPage_pos : 0 < store.recordsPerPage.toNat

theorem pos_of_ne_zero {value : UInt64} (h : value ≠ 0) : 0 < value.toNat :=
  Nat.pos_of_ne_zero fun hzero => h (UInt64.toNat_inj.mp hzero)

theorem accepted_of_create (h : create host root nlist options createRoot = .ok store) :
    Accepted options nlist store := by
  unfold create at h
  obtain ⟨hlayout, h⟩ := guard_eq_ok.mp h
  obtain ⟨-, h⟩ := guard_eq_ok.mp h
  obtain ⟨-, h⟩ := guard_eq_ok.mp h
  obtain rfl := Except.ok.inj h
  simp only [not_or] at hlayout
  obtain ⟨-, hnlist, -, -, hpower, -, hstride, hperPage, -⟩ := hlayout
  have hne : 4 + options.payloadBytes ≠ 0 := by
    intro hzero
    rw [if_pos hzero] at hperPage
    exact hperPage rfl
  rw [if_neg hne] at hperPage ⊢
  exact {
    options_eq := rfl
    nlist_eq := rfl
    nlist_pos := pos_of_ne_zero hnlist
    power := by simpa using hpower
    stride_eq := UInt64.toNat_add _ _
    stride_le := UInt64.not_lt.mp hstride
    stride_pos := pos_of_ne_zero hne
    perPage_eq := UInt64.toNat_div _ _
    perPage_pos := pos_of_ne_zero hperPage }

/-! ### The loops -/

theorem toNat_max (a b : UInt64) : (max a b).toNat = max a.toNat b.toNat := by
  change (if a ≤ b then b else a).toNat = _
  split
  next h => exact (Nat.max_eq_right (UInt64.le_iff_toNat_le.mp h)).symm
  next h =>
    have hlt := UInt64.lt_iff_toNat_lt.mp (UInt64.not_le.mp h)
    exact (Nat.max_eq_left hlt.le).symm

theorem toNat_min (a b : UInt64) : (min a b).toNat = min a.toNat b.toNat := by
  change (if a ≤ b then a else b).toNat = _
  split
  next h => exact (Nat.min_eq_left (UInt64.le_iff_toNat_le.mp h)).symm
  next h =>
    have hlt := UInt64.lt_iff_toNat_lt.mp (UInt64.not_le.mp h)
    exact (Nat.min_eq_right hlt.le).symm

theorem mem_countUp {first last value : UInt64} :
    value ∈ countUp first last ↔ first.toNat ≤ value.toNat ∧ value.toNat < last.toNat := by
  have hlast := last.toNat_lt
  rw [countUp, List.mem_map]
  constructor
  · rintro ⟨n, hn, rfl⟩
    rw [List.mem_range'_1] at hn
    rw [UInt64.toNat_ofNat_of_lt' (by change n < 2 ^ 64; omega)]
    omega
  · rintro ⟨hfirst, hlt⟩
    exact ⟨value.toNat, List.mem_range'_1.mpr (by omega), UInt64.ofNat_toNat⟩

theorem place_page (row : UInt64) :
    (store.place row).page.toNat = row.toNat / store.recordsPerPage.toNat :=
  UInt64.toNat_div _ _

theorem pageCount_eq (rows : UInt64) : (store.pageCount rows).toNat =
    Recast.pageCount rows.toNat store.recordsPerPage.toNat := by
  have hlt := rows.toNat_lt
  rw [pageCount, Recast.pageCount]
  by_cases hrows : rows = 0
  · rw [if_pos hrows, hrows]
    rfl
  · have hpos := pos_of_ne_zero hrows
    have hone : (1 : UInt64).toNat = 1 := rfl
    have hle := Nat.div_le_self (rows.toNat - 1) store.recordsPerPage.toNat
    rw [if_neg hrows, if_neg hpos.ne', UInt64.toNat_add, UInt64.toNat_div,
      UInt64.toNat_sub_of_le _ _ (UInt64.le_iff_toNat_le.mpr <| by rw [hone]; exact hpos), hone, Nat.mod_eq_of_lt (by omega)]

section Accepted

variable (haccepted : Accepted options nlist store)
include haccepted

theorem Accepted.pages_le :
    store.recordsPerPage.toNat * store.recordStride.toNat ≤ options.pageSize.toNat := by
  rw [haccepted.perPage_eq]
  exact Nat.div_mul_le_self _ _

/-- The first byte of a slot does not wrap. -/
theorem Accepted.toNat_slot {slot : UInt64} (h : slot.toNat < store.recordsPerPage.toNat) :
    (slot * store.recordStride).toNat = slot.toNat * store.recordStride.toNat := by
  have hle := (Nat.mul_le_mul_right store.recordStride.toNat h.le).trans haccepted.pages_le
  rw [UInt64.toNat_mul, Nat.mod_eq_of_lt (hle.trans_lt options.pageSize.toNat_lt)]

theorem Accepted.place_inPage (row : UInt64) : (store.place row).inPage.toNat =
    row.toNat % store.recordsPerPage.toNat * store.recordStride.toNat := by
  have hlt := Nat.mod_lt row.toNat haccepted.perPage_pos
  rw [← UInt64.toNat_mod] at hlt ⊢
  exact haccepted.toNat_slot hlt

theorem Accepted.place_injective : Function.Injective fun offset : UInt32 =>
    ((store.place offset.toUInt64).page,
      store.recordBytes (store.place offset.toUInt64).inPage) := by
  intro offset offset' heq
  obtain ⟨hpage, hbytes⟩ := Prod.mk.inj heq
  have hpage := congrArg UInt64.toNat hpage
  have hlane : (store.place offset.toUInt64).inPage.toNat =
      (store.place offset'.toUInt64).inPage.toNat :=
    ((Set.Ico_eq_Ico_iff (.inl (by omega))).mp hbytes).1
  rw [place_page, place_page] at hpage
  rw [haccepted.place_inPage, haccepted.place_inPage] at hlane
  have hlane := Nat.eq_of_mul_eq_mul_right haccepted.stride_pos hlane
  have hrow := Nat.div_add_mod offset.toUInt64.toNat store.recordsPerPage.toNat
  rw [hpage, hlane, Nat.div_add_mod, UInt32.toNat_toUInt64, UInt32.toNat_toUInt64] at hrow
  exact UInt32.toNat_inj.mp hrow.symm

/-- Every row of an append is written once, to its place. -/
theorem Accepted.mem_appendPlaces (hsmall : store.recordsPerPage.toNat < 2 ^ 32)
    {oldSize newSize : UInt32} {row : UInt64} {place : Place} :
    (row, place) ∈ store.appendPlaces oldSize newSize ↔
      oldSize.toNat ≤ row.toNat ∧ row.toNat < newSize.toNat ∧ place = store.place row := by
  have hpos := haccepted.perPage_pos
  have hnew := newSize.toNat_lt
  have hold : oldSize.toUInt64.toNat = oldSize.toNat := UInt32.toNat_toUInt64 _
  have hend : newSize.toUInt64.toNat = newSize.toNat := UInt32.toNat_toUInt64 _
  -- the rows of a page below the last one do not wrap
  have hpage : ∀ page : UInt64, page.toNat * store.recordsPerPage.toNat < newSize.toNat →
      (page * store.recordsPerPage).toNat = page.toNat * store.recordsPerPage.toNat ∧
      (page * store.recordsPerPage + store.recordsPerPage).toNat =
        page.toNat * store.recordsPerPage.toNat + store.recordsPerPage.toNat := by
    intro page h
    have hfirst : (page * store.recordsPerPage).toNat =
        page.toNat * store.recordsPerPage.toNat := by
      rw [UInt64.toNat_mul, Nat.mod_eq_of_lt (by omega)]
    refine ⟨hfirst, ?_⟩
    rw [UInt64.toNat_add, hfirst, Nat.mod_eq_of_lt (by omega)]
  simp only [appendPlaces, List.mem_flatMap, mem_countUp, pagePlaces, List.mem_map, Prod.mk.injEq,
    pageCount_eq, lt_pageCount_iff hpos, UInt64.toNat_div, toNat_max, toNat_min, hold,
    hend]
  constructor
  · rintro ⟨page, ⟨-, hin⟩, row', ⟨hfirst, hlast⟩, rfl, rfl⟩
    obtain ⟨hpageFirst, hpageLast⟩ := hpage page hin
    rw [hpageFirst] at hfirst
    rw [hpageLast] at hlast
    refine ⟨by omega, by omega, ?_⟩
    have hdiv : row'.toNat / store.recordsPerPage.toNat = page.toNat := by
      rw [Nat.div_eq_iff hpos]
      omega
    have hmod := Nat.div_add_mod' row'.toNat store.recordsPerPage.toNat
    rw [hdiv] at hmod
    apply Place.ext
    · apply UInt64.toNat_inj.mp
      rw [place_page, hdiv]
    · change (row' - page * store.recordsPerPage) * store.recordStride =
        row' % store.recordsPerPage * store.recordStride
      congr 1
      apply UInt64.toNat_inj.mp
      rw [UInt64.toNat_sub_of_le _ _ (UInt64.le_iff_toNat_le.mpr <| by omega), hpageFirst, UInt64.toNat_mod]
      omega
  · rintro ⟨hfirst, hlast, rfl⟩
    have hdiv := Nat.div_add_mod' row.toNat store.recordsPerPage.toNat
    have hmod := Nat.mod_lt row.toNat hpos
    have hpageOf : (row / store.recordsPerPage).toNat =
        row.toNat / store.recordsPerPage.toNat := UInt64.toNat_div _ _
    obtain ⟨hpageFirst, hpageLast⟩ := hpage (row / store.recordsPerPage) (by
      rw [hpageOf]
      omega)
    rw [hpageOf] at hpageFirst hpageLast
    refine ⟨row / store.recordsPerPage, ⟨?_, ?_⟩, row, ⟨?_, ?_⟩, rfl, ?_⟩
    · rw [hpageOf]
      exact Nat.div_le_div_right hfirst
    · rw [hpageOf]
      omega
    · rw [hpageFirst]
      omega
    · rw [hpageLast]
      omega
    · apply Place.ext
      · rfl
      · change (row - row / store.recordsPerPage * store.recordsPerPage) * store.recordStride =
          row % store.recordsPerPage * store.recordStride
        congr 1
        apply UInt64.toNat_inj.mp
        rw [UInt64.toNat_sub_of_le _ _ (UInt64.le_iff_toNat_le.mpr <| by omega), hpageFirst, UInt64.toNat_mod]
        omega

end Accepted

/-! ### Paths -/

/-- A name is appended to something that depends on the path only. -/
theorem joinPath_eq (path : List Char) : ∃ front, ∀ name, joinPath path name = front ++ name := by
  by_cases h : path.getLast? = some '/'
  · exact ⟨path, fun name => if_pos h⟩
  · refine ⟨path ++ ['/'], fun name => ?_⟩
    rw [joinPath, if_neg h, List.append_assoc, List.singleton_append]

/-- The path of a list names it. -/
theorem listPath_injective {listNo listNo' : UInt32} (h : listNo.toUInt64 < store.nlist)
    (h' : listNo'.toUInt64 < store.nlist) (hshard : (store.shard listNo).isSome)
    (heq : store.listPath listNo = store.listPath listNo') : listNo = listNo' := by
  obtain ⟨shard, hshard⟩ := Option.isSome_iff_exists.mp hshard
  rw [listPath, listPath, if_neg (UInt64.not_le.mpr h), if_neg (UInt64.not_le.mpr h'), hshard,
    Except.ok.injEq, Option.map_some] at heq
  cases hshard' : store.shard listNo' with
  | none =>
      rw [hshard'] at heq
      cases heq
  | some shard' =>
      rw [hshard', Option.map_some, Option.some_inj] at heq
      have heq := String.ofList_injective heq
      obtain ⟨front, hfront⟩ := joinPath_eq (joinPath (joinPath store.root.toList
        "records".toList) (decimal 6 shard.toNat))
      obtain ⟨front', hfront'⟩ := joinPath_eq (joinPath (joinPath store.root.toList
        "records".toList) (decimal 6 shard'.toNat))
      have hname : ∀ (front : List Char) (n : ℕ),
          front ++ ("list_".toList ++ decimal 8 n ++ ".bin".toList) =
            front ++ "list".toList ++ '_' :: decimal 8 n ++ ".bin".toList := fun front n => by
        have hlist : "list_".toList = "list".toList ++ ['_'] := rfl
        simp only [hlist, List.append_assoc, List.cons_append, List.nil_append]
      rw [hfront, hfront', hname, hname] at heq
      exact UInt32.toNat_inj.mp
        (decimal_of_append_eq (by decide) (List.append_cancel_right heq))

/-! ### Sound addressing -/

section Fits

variable (haccepted : Accepted options nlist store) (hfits : options.Fits)
include haccepted hfits

theorem Accepted.stride : store.recordStride.toNat = 4 + options.payloadBytes.toNat :=
  haccepted.stride_eq.trans (Nat.mod_eq_of_lt hfits.1)

theorem Accepted.perPage_lt : store.recordsPerPage.toNat < 2 ^ 32 := by
  rw [haccepted.perPage_eq, haccepted.stride hfits]
  exact hfits.2.2

theorem Accepted.shard_isSome (listNo : UInt32) : (store.shard listNo).isSome := by
  rw [shard, haccepted.options_eq]
  split
  next hzero =>
    have hmod := congrArg UInt32.toNat hzero
    rw [UInt64.toNat_toUInt32] at hmod
    exact absurd (Nat.dvd_of_mod_eq_zero hmod) hfits.2.1
  next => rfl

/-- The bytes of a slot, in whole numbers. -/
theorem Accepted.recordBytes_slot {slot : UInt64}
    (h : slot.toNat < store.recordsPerPage.toNat) :
    store.recordBytes (slot * store.recordStride) =
      Set.Ico (slot.toNat * store.recordStride.toNat)
        ((slot.toNat + 1) * store.recordStride.toNat) := by
  rw [recordBytes, haccepted.options_eq, ← haccepted.stride hfits, haccepted.toNat_slot h,
    Nat.succ_mul]

theorem Accepted.readPlace_eq (offset : UInt32) :
    store.readPlace offset = some (store.place offset.toUInt64) := by
  have hcast : store.recordsPerPage.toUInt32.toNat = store.recordsPerPage.toNat := by
    rw [UInt64.toNat_toUInt32]
    exact Nat.mod_eq_of_lt (haccepted.perPage_lt hfits)
  have hpos := haccepted.perPage_pos
  rw [readPlace, if_neg fun hzero => hpos.ne' (hcast.symm.trans (congrArg UInt32.toNat hzero))]
  refine congrArg some (Place.ext (UInt64.toNat_inj.mp ?_) rfl)
  rw [place_page, UInt32.toNat_toUInt64, UInt32.toNat_div, hcast, UInt32.toNat_toUInt64]

theorem Accepted.addresses : store.Addresses where
  stride := by
    rw [haccepted.options_eq]
    exact haccepted.stride hfits
  inside := by
    intro slot hslot byte hbyte
    rw [haccepted.recordBytes_slot hfits (UInt64.lt_iff_toNat_lt.mp hslot)] at hbyte
    have hend := Nat.mul_le_mul_right store.recordStride.toNat
      (Nat.succ_le_of_lt (UInt64.lt_iff_toNat_lt.mp hslot))
    rw [haccepted.options_eq]
    exact hbyte.2.trans_le (hend.trans haccepted.pages_le)
  disjoint := by
    intro slot hslot slot' hslot' hne
    rw [haccepted.recordBytes_slot hfits (UInt64.lt_iff_toNat_lt.mp hslot),
      haccepted.recordBytes_slot hfits (UInt64.lt_iff_toNat_lt.mp hslot')]
    rw [Set.Ico_disjoint_Ico]
    rcases Nat.lt_or_gt_of_ne (mt UInt64.toNat_inj.mp hne) with hlt | hlt
    · exact (Nat.min_le_left _ _).trans
        ((Nat.mul_le_mul_right _ hlt).trans (Nat.le_max_right _ _))
    · exact (Nat.min_le_right _ _).trans
        ((Nat.mul_le_mul_right _ hlt).trans (Nat.le_max_left _ _))
  injective := haccepted.place_injective
  divides := fun listNo _ => haccepted.shard_isSome hfits listNo
  paths := fun listNo listNo' h h' =>
    listPath_injective h h' (haccepted.shard_isSome hfits listNo)
  appends := fun _ _ _ _ _ => haccepted.mem_appendPlaces (haccepted.perPage_lt hfits)
  reads := haccepted.readPlace_eq hfits

end Fits

theorem Addresses.fits (haccepted : Accepted options nlist store) (h : store.Addresses) :
    options.Fits := by
  have hstride := h.stride
  rw [haccepted.options_eq] at hstride
  refine ⟨hstride ▸ store.recordStride.toNat_lt, fun hdvd => ?_, ?_⟩
  · have hzero : store.options.listsPerShard.toUInt32 = 0 := by
      apply UInt32.toNat_inj.mp
      rw [UInt64.toNat_toUInt32, haccepted.options_eq]
      exact Nat.mod_eq_zero_of_dvd hdvd
    have hsome := h.divides 0 (UInt64.lt_iff_toNat_lt.mpr (by
      rw [haccepted.nlist_eq]
      exact haccepted.nlist_pos))
    rw [shard, if_pos hzero] at hsome
    cases hsome
  · rw [← hstride, ← haccepted.perPage_eq]
    by_contra hlarge
    -- the first row that the narrowed divisor sends to a second page
    have hread := h.reads store.recordsPerPage.toUInt32
    rw [readPlace] at hread
    split at hread
    next => cases hread
    next hne =>
      have hpos : 0 < store.recordsPerPage.toUInt32.toNat := Nat.pos_of_ne_zero fun hzero =>
        hne (UInt32.toNat_inj.mp hzero)
      have hpage := congrArg (fun place => UInt64.toNat (Place.page place)) (Option.some.inj hread)
      have hsmall := store.recordsPerPage.toUInt32.toNat_lt
      dsimp only at hpage
      rw [place_page, UInt32.toNat_toUInt64, UInt32.toNat_toUInt64, UInt32.toNat_div,
        Nat.div_self hpos, Nat.div_eq_of_lt (by omega)] at hpage
      exact Nat.one_ne_zero hpage

/-- The store of the record model: pages of whole records, of the stride and the
capacity that the constructor computed. -/
theorem Addresses.exists_layout (haccepted : Accepted options nlist store) (h : store.Addresses)
    (hpayload : 0 < options.payloadBytes.toNat) :
    ∃ layout : RecordLayout, layout.pageSize = options.pageSize.toNat ∧
      layout.payloadBytes = options.payloadBytes.toNat ∧
      layout.recordStride = store.recordStride.toNat ∧
      layout.recordsPerPage = store.recordsPerPage.toNat ∧
      ∀ row : UInt64, (store.place row).page.toNat * layout.pageSize +
        (store.place row).inPage.toNat = layout.paging.slotOffset row.toNat := by
  have hstride := h.stride
  rw [haccepted.options_eq] at hstride
  have hperPage : options.pageSize.toNat / (4 + options.payloadBytes.toNat) =
      store.recordsPerPage.toNat := by
    rw [haccepted.perPage_eq, hstride]
  refine ⟨⟨_, _, hpayload, hstride ▸ haccepted.stride_le⟩, rfl, rfl, hstride.symm, hperPage,
    fun row => ?_⟩
  have hlane := haccepted.place_inPage row
  rw [hstride] at hlane
  rw [place_page, hlane, ← hperPage]
  rfl

/-- A store that the constructor accepts addresses its records and lists soundly
exactly when its options fit the machine words. -/
theorem record_addresses_iff (h : create host root nlist options createRoot = .ok store) :
    store.Addresses ↔ options.Fits :=
  ⟨Addresses.fits (accepted_of_create h), (accepted_of_create h).addresses⟩

/-- A host on which nothing is refused. -/
def linuxHost : StoreHost := ⟨true, true, true⟩

/-- The default pages and shards, with payloads of 128 floats. -/
def defaultOptions : ListFileStoreOptions := ⟨4096, 512, 256, false, false⟩

theorem record_addresses_iff_default :
    (⟨"index", 1024, defaultOptions, 516, 7⟩ : ListFileRecordStore).Addresses :=
  (@record_addresses_iff linuxHost "index" 1024 defaultOptions true _ (by decide)).mpr (by decide)

/-- The constructor accepts a stride that has wrapped to one byte, a shard size
that is cast to zero, and a page of more records than a divisor of 32 bits can
count. -/
theorem record_addresses_wrap : ∃ wrapped unsharded crowded : ListFileRecordStore,
    create linuxHost "index" 1 ⟨8, 18446744073709551613, 256, false, false⟩ true = .ok wrapped ∧
      wrapped.recordStride = 1 ∧ ¬wrapped.Addresses ∧
    create linuxHost "index" 1 ⟨4096, 512, 4294967296, false, false⟩ true = .ok unsharded ∧
      unsharded.shard 0 = none ∧ ¬unsharded.Addresses ∧
    create linuxHost "index" 1 ⟨34359738368, 4, 256, false, false⟩ true = .ok crowded ∧
      crowded.readPlace 0 = none ∧ ¬crowded.Addresses := by
  refine ⟨⟨"index", 1, ⟨8, 18446744073709551613, 256, false, false⟩, 1, 8⟩,
    ⟨"index", 1, ⟨4096, 512, 4294967296, false, false⟩, 516, 7⟩,
    ⟨"index", 1, ⟨34359738368, 4, 256, false, false⟩, 8, 4294967296⟩,
    by decide, rfl, fun h => ?_, by decide, by decide, fun h => ?_, by decide, by decide,
    fun h => ?_⟩
  · exact absurd h.stride (by decide)
  · exact absurd (h.divides 0 (by decide)) (by decide)
  · exact absurd (h.reads 0) (by decide)

end ListFileRecordStore

end Recast
