import Recast.Foundation.TopK
import Mathlib.Data.List.MinMax

/-!
# Rank selection

The `n` smallest rows of a list, found by partitioning around a threshold and
kept while more rows arrive: a row may be dropped once `n` kept rows rank below
it.
-/

namespace Foundation

variable {α K : Type*}

/-- Sort by a comparison of the valid elements. -/
def sortBy (less : α → α → Bool) (xs : List α) : List α :=
  xs.foldr (heapPush fun x y => less y x) []

theorem sortBy_perm (less : α → α → Bool) (xs : List α) : (sortBy less xs).Perm xs := by
  induction xs with
  | nil => exact List.Perm.refl _
  | cons x xs ih => exact (heapPush_perm _ x _).trans (ih.cons x)

/-- Two tests that exclude each other. -/
theorem countP_add_countP {p q r : α → Bool} {xs : List α}
    (hexclude : ∀ x ∈ xs, p x = true → q x = false) (hjoin : ∀ x ∈ xs, r x = (p x || q x)) :
    xs.countP p + xs.countP q = xs.countP r := by
  induction xs with
  | nil => rfl
  | cons x xs ih =>
      have hrest := ih (fun y hy => hexclude y (List.mem_cons_of_mem _ hy))
        (fun y hy => hjoin y (List.mem_cons_of_mem _ hy))
      have hx := hexclude x List.mem_cons_self
      rw [List.countP_cons, List.countP_cons, List.countP_cons, ← hrest, hjoin x List.mem_cons_self]
      cases hp : p x with
      | true => simp [hx hp]; omega
      | false => simp; omega

variable [LinearOrder K] {less : α → α → Bool} {key : α → K} {valid : α → Prop}

theorem sortBy_sorted (hless : ComparesBy less key valid) {xs : List α}
    (hvalid : ∀ x ∈ xs, valid x) : (sortBy less xs).Pairwise fun x y => key x ≤ key y := by
  have hdual : ComparesBy (fun x y => less y x) (fun x => OrderDual.toDual (key x)) valid :=
    fun x y hx hy => hless y x hy hx
  induction xs with
  | nil => exact List.Pairwise.nil
  | cons x xs ih =>
      have hrest := fun y hy => hvalid y (List.mem_cons_of_mem _ hy)
      exact heapPush_sorted hdual (hvalid x List.mem_cons_self)
        (fun y hy => hrest y ((sortBy_perm less xs).subset hy)) (ih hrest)

/-- Elements of distinct keys are sorted in one way. -/
theorem sortBy_eq_of_perm (hless : ComparesBy less key valid) {xs ys : List α} (hperm : xs.Perm ys)
    (hvalid : ∀ x ∈ xs, valid x) (hdistinct : ∀ x ∈ xs, ∀ y ∈ xs, key x = key y → x = y) :
    sortBy less xs = sortBy less ys := by
  have hxs := sortBy_perm less xs
  have hys := (sortBy_perm less ys).trans hperm.symm
  refine List.Perm.eq_of_pairwise (fun x y hx hy hle hge => ?_) (sortBy_sorted hless hvalid)
    (sortBy_sorted hless fun y hy => hvalid y (hperm.symm.subset hy)) (hxs.trans hys.symm)
  exact hdistinct x (hxs.subset hx) y (hys.subset hy) (le_antisymm hle hge)

/-- A sorted list of distinct keys stays as it is. -/
theorem sortBy_of_perm_sorted (hless : ComparesBy less key valid) {xs ys : List α}
    (hperm : xs.Perm ys) (hvalid : ∀ x ∈ xs, valid x) (hsorted : ys.Pairwise fun x y => key x ≤ key y)
    (hdistinct : ∀ x ∈ xs, ∀ y ∈ xs, key x = key y → x = y) : sortBy less xs = ys := by
  have hxs := sortBy_perm less xs
  refine List.Perm.eq_of_pairwise (fun x y hx hy hle hge => ?_) (sortBy_sorted hless hvalid) hsorted
    (hxs.trans hperm)
  exact hdistinct x (hxs.subset hx) y (hperm.symm.subset hy) (le_antisymm hle hge)

/-- The keys come in the sorted order of keys. -/
theorem map_sortBy (hless : ComparesBy less key valid) {xs : List α} (hvalid : ∀ x ∈ xs, valid x) :
    (sortBy less xs).map key = (xs.map key).insertionSort (· ≤ ·) := by
  refine List.Perm.eq_of_pairwise' (List.pairwise_map.mpr (sortBy_sorted hless hvalid))
    (List.pairwise_insertionSort _ _) ?_
  exact ((sortBy_perm less xs).map key).trans (List.perm_insertionSort _ _).symm

/-- At most `n` elements are below the one at place `n` of the sorted list, and
more than `n` are not above it. -/
theorem sorted_rank {xs : List α} (hsorted : xs.Pairwise fun x y => key x ≤ key y) {n : ℕ} {x : α}
    (hx : xs[n]? = some x) :
    xs.countP (fun y => key y < key x) ≤ n ∧ n < xs.countP fun y => key y ≤ key x := by
  obtain ⟨hn, rfl⟩ := List.getElem?_eq_some_iff.mp hx
  have hsplit : xs = xs.take n ++ xs[n] :: xs.drop (n + 1) := by
    rw [← List.drop_eq_getElem_cons, List.take_append_drop]
  have hlength : (xs.take n).length = n := List.length_take_of_le hn.le
  generalize xs[n] = x at hsplit
  rw [hsplit] at hsorted ⊢
  obtain ⟨-, hlater, hearlier⟩ := List.pairwise_append.mp hsorted
  constructor
  · have hnone : (x :: xs.drop (n + 1)).countP (fun y => key y < key x) = 0 := by
      refine List.countP_eq_zero.mpr fun y hy => ?_
      rw [decide_eq_true_eq, not_lt]
      rcases List.mem_cons.mp hy with rfl | hy
      · exact le_rfl
      · exact (List.pairwise_cons.mp hlater).1 y hy
    rw [List.countP_append, hnone]
    exact List.countP_le_length.trans hlength.le
  · rw [List.countP_append, List.countP_cons_of_pos (by simp), List.countP_eq_length.mpr]
    · omega
    · intro y hy
      exact decide_eq_true (hearlier y hy x List.mem_cons_self)

/-- At least `n` elements have fewer than `n` elements below them. -/
theorem le_countP_rank (key : α → K) {n : ℕ} {xs : List α} (hn : n ≤ xs.length) :
    n ≤ xs.countP fun x => xs.countP (fun y => key y < key x) < n := by
  have hless : ComparesBy (fun x y => decide (key x < key y)) key fun _ => True :=
    fun x y _ _ => decide_eq_true_iff
  have hsorted := sortBy_sorted hless (fun x _ => trivial : ∀ x ∈ xs, True)
  have hperm := sortBy_perm (fun x y => decide (key x < key y)) xs
  generalize sortBy (fun x y => decide (key x < key y)) xs = sorted at hsorted hperm
  have hfront : (sorted.take n).countP (fun x => xs.countP (fun y => key y < key x) < n) = n := by
    rw [List.countP_eq_length.mpr, List.length_take_of_le (hperm.length_eq ▸ hn)]
    intro x hx
    obtain ⟨place, hplace, hget⟩ := List.mem_take_iff_getElem.mp hx
    have hrank := (sorted_rank hsorted (hget ▸ List.getElem?_eq_getElem _)).1
    rw [hperm.countP_eq] at hrank
    exact decide_eq_true (by omega)
  rw [← hperm.countP_eq, ← List.take_append_drop n sorted, List.countP_append, hfront]
  exact Nat.le_add_right _ _

/-- `kept` is the `n` elements of `xs` with the smallest keys. -/
structure Least (key : α → K) (n : ℕ) (xs kept : List α) : Prop where
  length : kept.length = n
  rest : ∃ rest, (kept ++ rest).Perm xs ∧ ∀ x ∈ kept, ∀ y ∈ rest, key x < key y

/-- What a downward closed test keeps is the least elements. -/
theorem least_filter {keep : α → Bool} {xs : List α}
    (hdown : ∀ x ∈ xs, ∀ y ∈ xs, keep x = true → keep y = false → key x < key y) :
    Least key (xs.countP keep) xs (xs.filter keep) where
  length := List.countP_eq_length_filter.symm
  rest := by
    refine ⟨xs.filter fun x => !keep x, List.filter_append_perm keep xs, fun x hx y hy => ?_⟩
    obtain ⟨hx, hkeep⟩ := List.mem_filter.mp hx
    obtain ⟨hy, hdrop⟩ := List.mem_filter.mp hy
    exact hdown x hx y hy hkeep (by simpa using hdrop)

/-- The elements up to the one of rank `n` are the `n` least. -/
theorem least_upTo {keep : α → Bool} {xs : List α} {n : ℕ} {last : α}
    (hkeep : ∀ x ∈ xs, keep x = true ↔ key x ≤ key last)
    (hbelow : xs.countP (fun x => key x < key last) ≤ n - 1)
    (hupTo : n - 1 < xs.countP fun x => key x ≤ key last)
    (honce : xs.countP (fun x => key x = key last) ≤ 1) (hn : 0 < n) :
    Least key n xs (xs.filter keep) := by
  have hsplit : xs.countP (fun x => key x < key last) + xs.countP (fun x => key x = key last) =
      xs.countP fun x => key x ≤ key last := by
    refine countP_add_countP (fun x _ hlt => ?_) fun x _ => ?_
    · exact decide_eq_false (of_decide_eq_true hlt).ne
    · apply Bool.eq_iff_iff.mpr
      simp [le_iff_lt_or_eq]
  have hcount : xs.countP keep = n := by
    rw [List.countP_congr fun x hx => (hkeep x hx).trans decide_eq_true_iff.symm]
    omega
  rw [← hcount]
  refine least_filter fun x hx y hy hkept hdropped => ?_
  rw [hkeep x hx] at hkept
  refine hkept.trans_lt (not_le.mp fun hle => ?_)
  rw [(hkeep y hy).mpr hle] at hdropped
  cases hdropped

/-- The kept elements are those with fewer than `n` elements below them. -/
theorem Least.mem_iff {n : ℕ} {xs kept : List α} (h : Least key n xs kept) {x : α} :
    x ∈ kept ↔ x ∈ xs ∧ xs.countP (fun y => key y < key x) < n := by
  obtain ⟨rest, hperm, hbelow⟩ := h.rest
  rw [← hperm.countP_eq, ← hperm.mem_iff, List.countP_append, List.mem_append, ← h.length]
  constructor
  · intro hx
    have hnone : rest.countP (fun y => key y < key x) = 0 :=
      List.countP_eq_zero.mpr fun y hy => by simpa using (hbelow x hx y hy).le
    refine ⟨.inl hx, ?_⟩
    rw [hnone, Nat.add_zero, List.countP_eq_length_filter]
    exact List.length_filter_lt_length_iff_exists.mpr ⟨x, hx, by simp⟩
  · rintro ⟨hx | hx, hcount⟩
    · exact hx
    · have hall : kept.countP (fun y => key y < key x) = kept.length :=
        List.countP_eq_length.mpr fun y hy => decide_eq_true (hbelow y hy x hx)
      omega

/-- The least of distinct elements are determined up to order. -/
theorem Least.perm {n : ℕ} {xs kept kept' : List α} (hnodup : xs.Nodup) (h : Least key n xs kept)
    (h' : Least key n xs kept') : kept.Perm kept' := by
  have hkept {kept : List α} (h : Least key n xs kept) : kept.Nodup := by
    obtain ⟨rest, hperm, -⟩ := h.rest
    exact (hperm.nodup_iff.mpr hnodup).sublist (List.sublist_append_left _ _)
  exact (List.perm_ext_iff_of_nodup (hkept h) (hkept h')).mpr fun x =>
    h.mem_iff.trans h'.mem_iff.symm

/-- The front of the sorted list. -/
theorem least_take (hless : ComparesBy less key valid) {xs : List α} (hvalid : ∀ x ∈ xs, valid x)
    (hnodup : xs.Nodup) (hdistinct : ∀ x ∈ xs, ∀ y ∈ xs, key x = key y → x = y) (n : ℕ) :
    Least key (min n xs.length) xs ((sortBy less xs).take n) := by
  have hperm := sortBy_perm less xs
  refine ⟨by rw [List.length_take, hperm.length_eq], (sortBy less xs).drop n, ?_, fun x hx y hy => ?_⟩
  · rw [List.take_append_drop]
    exact hperm
  · have hsorted := sortBy_sorted hless hvalid
    have hsplit := hperm.nodup_iff.mpr hnodup
    rw [← List.take_append_drop n (sortBy less xs)] at hsorted hsplit
    have hne : x ≠ y := (List.nodup_append.mp hsplit).2.2 x hx y hy
    refine ((List.pairwise_append.mp hsorted).2.2 x hx y hy).lt_of_ne fun heq => hne ?_
    exact hdistinct x (hperm.subset (List.mem_of_mem_take hx)) y
      (hperm.subset (List.mem_of_mem_drop hy)) heq

/-- What is kept of `xs` while its `n` elements with the smallest keys are wanted:
an element is dropped only when `n` kept ones are below it. -/
def Shortlist (key : α → K) (n : ℕ) (xs kept : List α) : Prop :=
  ∃ dropped, (kept ++ dropped).Perm xs ∧
    ∀ x ∈ dropped, n ≤ kept.countP fun y => key y < key x

theorem Shortlist.nil (key : α → K) (n : ℕ) : Shortlist key n [] [] :=
  ⟨[], List.Perm.refl _, by simp⟩

theorem Shortlist.mem {n : ℕ} {xs kept : List α} (h : Shortlist key n xs kept) {x : α}
    (hx : x ∈ kept) : x ∈ xs := by
  obtain ⟨dropped, hperm, -⟩ := h
  exact hperm.subset (List.mem_append_left _ hx)

theorem Shortlist.length_le {n : ℕ} {xs kept : List α} (h : Shortlist key n xs kept) :
    kept.length ≤ xs.length := by
  obtain ⟨dropped, hperm, -⟩ := h
  rw [← hperm.length_eq, List.length_append]
  exact Nat.le_add_right _ _

/-- More elements arrive, some of which are refused. -/
theorem Shortlist.extend {n : ℕ} {xs kept : List α} (h : Shortlist key n xs kept)
    {batch admitted refused : List α} (hbatch : (admitted ++ refused).Perm batch)
    (hrefused : ∀ x ∈ refused, n ≤ kept.countP fun y => key y < key x) :
    Shortlist key n (xs ++ batch) (kept ++ admitted) := by
  obtain ⟨dropped, hperm, hdropped⟩ := h
  refine ⟨dropped ++ refused, ?_, fun x hx => ?_⟩
  · calc (kept ++ admitted ++ (dropped ++ refused))
        _ |>.Perm (kept ++ dropped ++ (admitted ++ refused)) := by
          simp only [List.append_assoc]
          refine List.Perm.append_left _ ?_
          simp only [← List.append_assoc]
          exact List.perm_append_comm.append_right _
        _ |>.Perm (xs ++ batch) := hperm.append hbatch
  · rw [List.countP_append]
    refine Nat.le_add_right_of_le ?_
    exact (List.mem_append.mp hx).elim (hdropped x) (hrefused x)

/-- Of the kept elements the least ones are kept, and at least `n` of them. -/
theorem Shortlist.shrink {n m : ℕ} {xs kept shrunk : List α} (h : Shortlist key n xs kept)
    (hn : n ≤ m) (hleast : Least key m kept shrunk) : Shortlist key n xs shrunk := by
  obtain ⟨dropped, hperm, hdropped⟩ := h
  obtain ⟨rest, hkept, hbelow⟩ := hleast.rest
  -- once one element of the rest is below it, all of `shrunk` is
  have hall {x y : α} (hy : y ∈ rest) (hxy : key y ≤ key x) :
      n ≤ shrunk.countP fun z => key z < key x := by
    rw [List.countP_eq_length.mpr fun z hz => decide_eq_true ((hbelow z hz y hy).trans_le hxy),
      hleast.length]
    exact hn
  refine ⟨rest ++ dropped, ?_, fun x hx => ?_⟩
  · rw [← List.append_assoc]
    exact (hkept.append_right dropped).trans hperm
  rcases List.mem_append.mp hx with hx | hx
  · exact hall hx le_rfl
  · by_cases hsome : ∃ y ∈ rest, key y < key x
    · obtain ⟨y, hy, hlt⟩ := hsome
      exact hall hy hlt.le
    · have hnone : rest.countP (fun y => key y < key x) = 0 :=
        List.countP_eq_zero.mpr fun y hy => by
          simpa using not_lt.mp fun hlt => hsome ⟨y, hy, hlt⟩
      have hcount := hdropped x hx
      rwa [← hkept.countP_eq, List.countP_append, hnone, Nat.add_zero] at hcount

/-- A shortlist of at most `n` elements is the least ones. -/
theorem Shortlist.least {n : ℕ} {xs kept : List α} (h : Shortlist key n xs kept)
    (hlength : kept.length ≤ n) : Least key (min n xs.length) xs kept := by
  obtain ⟨dropped, hperm, hdropped⟩ := h
  have hcount := hperm.length_eq
  rw [List.length_append] at hcount
  have hbelow : ∀ x ∈ kept, ∀ y ∈ dropped, key x < key y := by
    intro x hx y hy
    have hall : kept.countP (fun z => key z < key y) = kept.length :=
      List.countP_le_length.antisymm (hlength.trans (hdropped y hy))
    exact of_decide_eq_true (List.countP_eq_length.mp hall x hx)
  refine ⟨?_, dropped, hperm, hbelow⟩
  cases dropped with
  | nil =>
      rw [List.length_nil] at hcount
      omega
  | cons y dropped =>
      have hfull := (hdropped y List.mem_cons_self).trans List.countP_le_length
      omega

/-- An element may be dropped once `n` elements of the whole list are below it. -/
theorem shortlist_filter {n : ℕ} {keep : α → Bool} {xs : List α}
    (hdrop : ∀ x ∈ xs, keep x = false → n ≤ xs.countP fun y => key y < key x) :
    Shortlist key n xs (xs.filter keep) := by
  have hperm := List.filter_append_perm keep xs
  refine ⟨xs.filter fun x => !keep x, hperm, fun x hx => ?_⟩
  -- everything below the least dropped element is kept
  obtain ⟨least, hleast⟩ := Option.ne_none_iff_exists'.mp
    (mt (List.argmin_eq_none (f := key)).mp (List.ne_nil_of_mem hx))
  have hmem := List.mem_filter.mp (List.argmin_mem hleast)
  have hbelow : (xs.filter fun x => !keep x).countP (fun y => key y < key least) = 0 :=
    List.countP_eq_zero.mpr fun y hy => by simpa using List.le_of_mem_argmin hy hleast
  have hcount := hdrop least hmem.1 (by simpa using hmem.2)
  rw [← hperm.countP_eq, List.countP_append, hbelow, Nat.add_zero] at hcount
  refine hcount.trans (List.countP_mono_left fun y _ hy => decide_eq_true ?_)
  exact (of_decide_eq_true hy).trans_le (List.le_of_mem_argmin hx hleast)

/-- Fewer than `n` keys are below one of the first `n`. -/
theorem countP_lt_of_mem_take {keys : List K} {n : ℕ} {k : K}
    (hk : k ∈ (keys.insertionSort (· ≤ ·)).take n) : keys.countP (fun k' => k' < k) < n := by
  obtain ⟨place, hplace, rfl⟩ := List.mem_take_iff_getElem.mp hk
  have hinside := hplace.trans_le (min_le_right _ _)
  have hrank := (@sorted_rank K K _ id _ (List.pairwise_insertionSort (· ≤ ·) keys) _ _
    (List.getElem?_eq_getElem hinside)).1
  rw [(List.perm_insertionSort _ keys).countP_eq] at hrank
  exact hrank.trans_lt (hplace.trans_le (min_le_left _ _))

/-- A shortlist has the `n` smallest keys. -/
theorem Shortlist.take_keys {n : ℕ} {xs kept : List α} (h : Shortlist key n xs kept) :
    ((kept.map key).insertionSort (· ≤ ·)).take n =
      ((xs.map key).insertionSort (· ≤ ·)).take n := by
  obtain ⟨dropped, hperm, hdropped⟩ := h
  let front := ((kept.map key).insertionSort (· ≤ ·)).take n
  let back := ((kept.map key).insertionSort (· ≤ ·)).drop n ++ dropped.map key
  have hsorted := List.pairwise_insertionSort (· ≤ ·) (kept.map key)
  have hkept := List.perm_insertionSort (· ≤ ·) (kept.map key)
  have hfront : ∀ x ∈ dropped, n ≤ kept.length ∧ ∀ k ∈ front, k ≤ key x := by
    intro x hx
    have hcount := hdropped x hx
    refine ⟨hcount.trans List.countP_le_length, fun k hk => ?_⟩
    by_contra habove
    have hfew := countP_lt_of_mem_take hk
    rw [List.countP_map] at hfew
    refine absurd (hcount.trans (List.countP_mono_left fun y _ hy => ?_)) (not_le.mpr hfew)
    exact decide_eq_true ((of_decide_eq_true hy).trans (not_le.mp habove))
  have hall : (front ++ back.insertionSort (· ≤ ·)).Perm ((xs.map key).insertionSort (· ≤ ·)) := by
    refine ((List.perm_insertionSort _ _).append_left front).trans ?_
    rw [← List.append_assoc, List.take_append_drop]
    refine (hkept.append_right _).trans ?_
    rw [← List.map_append]
    exact (hperm.map key).trans (List.perm_insertionSort _ _).symm
  have hjoined : (front ++ back.insertionSort (· ≤ ·)).Pairwise (· ≤ ·) := by
    refine List.pairwise_append.mpr ⟨hsorted.sublist (List.take_sublist _ _),
      List.pairwise_insertionSort _ _, fun k hk k' hk' => ?_⟩
    rcases List.mem_append.mp ((List.perm_insertionSort _ _).subset hk') with hk' | hk'
    · rw [← List.take_append_drop n ((kept.map key).insertionSort (· ≤ ·))] at hsorted
      exact (List.pairwise_append.mp hsorted).2.2 k hk k' hk'
    · obtain ⟨x, hx, rfl⟩ := List.mem_map.mp hk'
      exact (hfront x hx).2 k hk
  rw [← List.Perm.eq_of_pairwise' hjoined (List.pairwise_insertionSort _ _) hall]
  cases hnone : dropped with
  | nil =>
      have hback : back.insertionSort (· ≤ ·) = ((kept.map key).insertionSort (· ≤ ·)).drop n := by
        refine List.Perm.eq_of_pairwise' (List.pairwise_insertionSort _ _)
          (hsorted.sublist (List.drop_sublist _ _)) ?_
        refine (List.perm_insertionSort _ _).trans (List.Perm.of_eq ?_)
        rw [show back = _ ++ dropped.map key from rfl, hnone, List.map_nil, List.append_nil]
      rw [hback, List.take_append_drop]
  | cons x rest =>
      have hlength : front.length = n := by
        rw [List.length_take, List.length_insertionSort, List.length_map]
        exact min_eq_left (hfront x (hnone ▸ List.mem_cons_self)).1
      rw [List.take_left' hlength]

end Foundation
