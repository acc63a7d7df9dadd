import Mathlib.Data.List.Sort

/-!
# The smallest elements of a stream

A bounded priority queue: every element is pushed, and the worst one is popped
as soon as there are too many. What remains does not depend on the order of the
stream.
-/

namespace Foundation

variable {α K : Type*}

/-- Push into a priority queue, which is a list with its worst element first. -/
def heapPush (better : α → α → Bool) (x : α) : List α → List α
  | [] => [x]
  | top :: rest => if better x top then top :: heapPush better x rest else x :: top :: rest

/-- Push, then pop the worst element if there are more than `count`. -/
def boundedPush (better : α → α → Bool) (count : Nat) (heap : List α) (x : α) : List α :=
  let pushed := heapPush better x heap
  if count < pushed.length then pushed.tail else pushed

theorem heapPush_perm (better : α → α → Bool) (x : α) (heap : List α) :
    (heapPush better x heap).Perm (x :: heap) := by
  induction heap with
  | nil => exact List.Perm.refl _
  | cons top rest ih =>
      rw [heapPush]
      split
      · exact (ih.cons top).trans (List.Perm.swap x top rest)
      · exact List.Perm.refl _

variable [LinearOrder K]

/-- The queue compares as the keys do, on the elements it can meet. -/
def ComparesBy (better : α → α → Bool) (key : α → K) (valid : α → Prop) : Prop :=
  ∀ x y, valid x → valid y → (better x y = true ↔ key x < key y)

variable {better : α → α → Bool} {key : α → K} {valid : α → Prop}

theorem heapPush_sorted (hbetter : ComparesBy better key valid) {x : α} (hx : valid x)
    {heap : List α} (hvalid : ∀ y ∈ heap, valid y)
    (hsorted : heap.Pairwise fun y z => key z ≤ key y) :
    (heapPush better x heap).Pairwise fun y z => key z ≤ key y := by
  induction heap with
  | nil => exact List.pairwise_singleton _ _
  | cons top rest ih =>
      obtain ⟨htop, hrest⟩ := List.pairwise_cons.mp hsorted
      have hcompare := hbetter x top hx (hvalid top List.mem_cons_self)
      rw [heapPush]
      split
      next hlt =>
        refine List.pairwise_cons.mpr
          ⟨?_, ih (fun y hy => hvalid y (List.mem_cons_of_mem _ hy)) hrest⟩
        intro y hy
        rcases List.mem_cons.mp ((heapPush_perm better x rest).subset hy) with rfl | hy
        · exact le_of_lt (hcompare.mp hlt)
        · exact htop y hy
      next hlt =>
        have hle : key top ≤ key x := le_of_not_gt fun hgt => hlt (hcompare.mpr hgt)
        refine List.pairwise_cons.mpr ⟨?_, hsorted⟩
        intro y hy
        rcases List.mem_cons.mp hy with rfl | hy
        · exact hle
        · exact (htop y hy).trans hle

/-- `heap` holds `count` of the elements with the smallest keys, the worst first. -/
structure Smallest (key : α → K) (count : Nat) (xs heap : List α) : Prop where
  sorted : heap.Pairwise fun y z => key z ≤ key y
  length_le : heap.length ≤ count
  rest : ∃ rest, (heap ++ rest).Perm xs ∧ (∀ x ∈ heap, ∀ y ∈ rest, key x ≤ key y) ∧
    (rest = [] ∨ heap.length = count)

theorem Smallest.nil (key : α → K) (count : Nat) : Smallest key count [] [] where
  sorted := List.Pairwise.nil
  length_le := Nat.zero_le _
  rest := ⟨[], List.Perm.refl _, by simp, Or.inl rfl⟩

theorem Smallest.mem {count : Nat} {xs heap : List α} (h : Smallest key count xs heap) {x : α}
    (hx : x ∈ heap) : x ∈ xs := by
  obtain ⟨rest, hperm, -, -⟩ := h.rest
  exact hperm.subset (List.mem_append_left _ hx)

theorem Smallest.push (hbetter : ComparesBy better key valid) {count : Nat} {xs heap : List α}
    (h : Smallest key count xs heap) (hvalid : ∀ y ∈ xs, valid y) {x : α} (hx : valid x) :
    Smallest key count (xs ++ [x]) (boundedPush better count heap x) := by
  obtain ⟨rest, hperm, hbest, hfull⟩ := h.rest
  have hpushed := heapPush_perm better x heap
  have hsorted := heapPush_sorted hbetter hx (fun y hy => hvalid y (h.mem hy)) h.sorted
  have hlength := hpushed.length_eq
  rw [List.length_cons] at hlength
  have hall : (heapPush better x heap ++ rest).Perm (xs ++ [x]) :=
    (hpushed.append_right rest).trans
      ((hperm.cons x).trans (List.perm_append_singleton x xs).symm)
  have hle := h.length_le
  rw [boundedPush]
  split
  next hover =>
    cases hcases : heapPush better x heap with
    | nil => rw [hcases] at hlength; simp at hlength
    | cons top tail =>
        rw [hcases] at hsorted hlength hall hpushed
        obtain ⟨htop, htail⟩ := List.pairwise_cons.mp hsorted
        rw [List.length_cons] at hlength
        refine ⟨htail, by simp only [List.tail_cons]; omega, top :: rest,
          List.perm_middle.trans hall, ?_, ?_⟩
        · intro y hy z hz
          rcases List.mem_cons.mp hz with rfl | hz
          · exact htop y hy
          -- the popped element is either the new one, or no better than it
          rcases List.mem_cons.mp (hpushed.subset (List.mem_cons_self (a := top))) with rfl | hold
          · exact hbest y (hpushed.cons_inv.subset hy) z hz
          · rcases List.mem_cons.mp (hpushed.subset (List.mem_cons_of_mem _ hy)) with rfl | hy
            · exact (htop _ hy).trans (hbest top hold z hz)
            · exact hbest y hy z hz
        · right
          rw [hcases, List.length_cons] at hover
          simp only [List.tail_cons]
          omega
  next hroom =>
    have hrest : rest = [] := hfull.resolve_right fun hcount => by omega
    subst hrest
    exact ⟨hsorted, by omega, [], hall, by simp, Or.inl rfl⟩

theorem Smallest.foldl (hbetter : ComparesBy better key valid) {count : Nat} {xs heap : List α}
    (h : Smallest key count xs heap) (hvalid : ∀ y ∈ xs, valid y) {ys : List α}
    (hys : ∀ y ∈ ys, valid y) :
    Smallest key count (xs ++ ys) (ys.foldl (boundedPush better count) heap) := by
  induction ys generalizing xs heap with
  | nil => rwa [List.append_nil, List.foldl_nil]
  | cons y ys ih =>
      have hy := hys y List.mem_cons_self
      have hnext := ih (h.push hbetter hvalid hy)
        (fun z hz => (List.mem_append.mp hz).elim (hvalid z) fun hz =>
          (List.mem_singleton.mp hz).symm ▸ hy)
        (fun z hz => hys z (List.mem_cons_of_mem _ hz))
      rwa [List.append_assoc, List.singleton_append] at hnext

/-- Whatever the order of the stream, the queue emptied backwards lists the
`count` smallest keys in increasing order. -/
theorem Smallest.reverse_keys {count : Nat} {xs heap : List α} (h : Smallest key count xs heap) :
    heap.reverse.map key = ((xs.map key).insertionSort (· ≤ ·)).take count := by
  obtain ⟨rest, hperm, hbest, hfull⟩ := h.rest
  have hsorted : (heap.reverse.map key ++ (rest.map key).insertionSort (· ≤ ·)).Pairwise
      (· ≤ ·) := by
    refine List.pairwise_append.mpr ⟨?_, List.pairwise_insertionSort _ _, ?_⟩
    · rw [List.pairwise_map, List.pairwise_reverse]
      exact h.sorted
    · intro k hk k' hk'
      obtain ⟨x, hx, rfl⟩ := List.mem_map.mp hk
      obtain ⟨y, hy, rfl⟩ := List.mem_map.mp ((List.perm_insertionSort _ _).subset hk')
      exact hbest x (List.mem_reverse.mp hx) y hy
  have hkeys : (heap.reverse.map key ++ (rest.map key).insertionSort (· ≤ ·)).Perm
      ((xs.map key).insertionSort (· ≤ ·)) := by
    have hfront := (List.reverse_perm heap).map key
    have hback := List.perm_insertionSort (· ≤ ·) (rest.map key)
    refine (hfront.append hback).trans ?_
    rw [← List.map_append]
    exact (hperm.map key).trans (List.perm_insertionSort (· ≤ ·) (xs.map key)).symm
  have heq := List.Perm.eq_of_pairwise' hsorted (List.pairwise_insertionSort _ _) hkeys
  rw [← heq]
  rcases hfull with rfl | hcount
  · rw [List.map_nil, List.insertionSort_nil, List.append_nil, List.take_of_length_le]
    rw [List.length_map, List.length_reverse]
    exact h.length_le
  · rw [List.take_left' (by rw [List.length_map, List.length_reverse, hcount])]

/-- The worst of `count` kept elements is the one of rank `count`. -/
theorem Smallest.head_key {count : Nat} {xs heap : List α} (h : Smallest key count xs heap)
    (hpos : 0 < count) (hcount : count ≤ xs.length) : ∃ top rest, heap = top :: rest ∧
      ((xs.map key).insertionSort (· ≤ ·))[count - 1]? = some (key top) := by
  have hkeys := h.reverse_keys
  have hlength := congrArg List.length hkeys
  rw [List.length_map, List.length_reverse, List.length_take, List.length_insertionSort,
    List.length_map, min_eq_left hcount] at hlength
  cases heap with
  | nil =>
      rw [List.length_nil] at hlength
      omega
  | cons top rest =>
      refine ⟨top, rest, rfl, ?_⟩
      have hplace := congrArg (fun keys : List K => keys[count - 1]?) hkeys
      simp only [List.reverse_cons, List.map_append, List.map_cons, List.map_nil] at hplace
      rw [List.length_cons] at hlength
      rw [List.getElem?_take_of_lt (by omega),
        List.getElem?_append_right (by rw [List.length_map, List.length_reverse]; omega),
        List.length_map, List.length_reverse, show count - 1 - rest.length = 0 by omega] at hplace
      exact hplace.symm

end Foundation
