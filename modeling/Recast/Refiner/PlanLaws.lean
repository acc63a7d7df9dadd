import Recast.Refiner.Plans
import Recast.Foundation.Except

/-!
# Windows of plans

The plans are sorted by list, so the plans of a window of lists are consecutive
and the windows partition all plans.
-/

namespace Recast

open Foundation

theorem lt_length_takeWhile_iff {α : Type*} {p : α → Bool} {xs : List α}
    (hp : xs.Pairwise fun x y => p y = true → p x = true) {i : Nat} {x : α}
    (hx : xs[i]? = some x) : i < (xs.takeWhile p).length ↔ p x = true := by
  induction xs generalizing i with
  | nil => simp at hx
  | cons y ys ih =>
      obtain ⟨hy, hys⟩ := List.pairwise_cons.mp hp
      rw [List.takeWhile_cons]
      cases i with
      | zero =>
          obtain rfl : y = x := by simpa using hx
          split
          next h => simp [h]
          next h => simp [h]
      | succ i =>
          rw [List.getElem?_cons_succ] at hx
          split
          next h => rw [List.length_cons, Nat.succ_lt_succ_iff, ih hys hx]
          next h =>
            refine ⟨fun hlt => absurd hlt (by simp), fun hpx => ?_⟩
            exact absurd (hy x (List.mem_of_getElem? hx) hpx) h

theorem takeWhile_drop_length {α : Type*} {p q : α → Bool} {xs : List α}
    (hpq : ∀ x ∈ xs, p x = true → q x = true) :
    (xs.takeWhile p).length + ((xs.drop (xs.takeWhile p).length).takeWhile q).length =
      (xs.takeWhile q).length := by
  induction xs with
  | nil => rfl
  | cons x xs ih =>
      rw [List.takeWhile_cons]
      split
      next h =>
        have hq := hpq x List.mem_cons_self h
        rw [List.length_cons, List.drop_succ_cons, List.takeWhile_cons, if_pos hq,
          List.length_cons, ← ih fun y hy => hpq y (List.mem_cons_of_mem _ hy)]
        omega
      next h => simp

theorem distinctLists_concat (plans : List ReadPlan) (plan : ReadPlan) :
    distinctLists (plans ++ [plan]) =
      if (distinctLists plans).getLast? = some plan.listNo then distinctLists plans
      else distinctLists plans ++ [plan.listNo] := by
  rw [distinctLists, List.foldl_append]
  rfl

theorem mem_distinctLists {plans : List ReadPlan} {listNo : Nat} :
    listNo ∈ distinctLists plans ↔ ∃ plan ∈ plans, plan.listNo = listNo := by
  induction plans using List.reverseRecOn with
  | nil => simp [distinctLists]
  | append_singleton plans plan ih =>
      rw [distinctLists_concat]
      simp only [List.mem_append, List.mem_singleton, or_and_right, exists_or, exists_eq_left]
      split
      next hlast =>
        rw [ih]
        refine ⟨Or.inl, fun h => h.elim id ?_⟩
        rintro rfl
        exact ih.mp (List.mem_of_getLast? hlast)
      next => rw [List.mem_append, ih, List.mem_singleton, eq_comm]

/-- Sorted plans have strictly sorted lists. -/
theorem distinctLists_sorted {plans : List ReadPlan}
    (hsorted : plans.Pairwise fun p q => p.listNo ≤ q.listNo) :
    (distinctLists plans).Pairwise (· < ·) := by
  induction plans using List.reverseRecOn with
  | nil => exact List.Pairwise.nil
  | append_singleton plans plan ih =>
      obtain ⟨hplans, -, hlast⟩ := List.pairwise_append.mp hsorted
      rw [distinctLists_concat]
      split
      next => exact ih hplans
      next hne =>
        refine List.pairwise_append.mpr ⟨ih hplans, List.pairwise_singleton _ _, ?_⟩
        intro x hx y hy
        obtain rfl := List.mem_singleton.mp hy
        obtain ⟨p, hp, rfl⟩ := mem_distinctLists.mp hx
        refine lt_of_le_of_ne (hlast p hp plan List.mem_cons_self) fun heq => hne ?_
        -- the list of `p` would be the last one already
        have hgetLast := List.getLast?_eq_some_getLast (List.ne_nil_of_mem hx)
        generalize (distinctLists plans).getLast (List.ne_nil_of_mem hx) = last at hgetLast
        obtain ⟨front, hfront⟩ := List.getLast?_eq_some_iff.mp hgetLast
        obtain ⟨q, hq, hqLast⟩ := mem_distinctLists.mp (List.mem_of_getLast? hgetLast)
        have hle := hlast q hq plan List.mem_cons_self
        have hlt := ih hplans
        rw [hfront] at hlt hx
        rw [hgetLast]
        rcases List.mem_append.mp hx with hx | hx
        · have := (List.pairwise_append.mp hlt).2.2 _ hx last List.mem_cons_self
          omega
        · rw [← List.mem_singleton.mp hx, heq]

namespace RefineCall

variable {call : RefineCall}

/-- What planning guarantees about the lists. -/
structure Sorted (call : RefineCall) : Prop where
  plans : call.plans.Pairwise fun p q => p.listNo ≤ q.listNo
  lists : call.lists = distinctLists call.plans

/-- The plans of the first `count` lists. -/
def planCount (call : RefineCall) (count : Nat) : Nat :=
  (call.plans.takeWhile fun plan => decide (plan.listNo ∈ call.lists.take count)).length

theorem Sorted.lists_sorted (h : call.Sorted) : call.lists.Pairwise (· < ·) := by
  rw [h.lists]
  exact distinctLists_sorted h.plans

theorem Sorted.mem_lists (h : call.Sorted) {plan : ReadPlan} (hplan : plan ∈ call.plans) :
    plan.listNo ∈ call.lists := by
  rw [h.lists]
  exact mem_distinctLists.mpr ⟨plan, hplan, rfl⟩

/-- The lists of a prefix are those up to its last one. -/
theorem Sorted.mem_take_iff (h : call.Sorted) {count listNo last : Nat}
    (hlast : call.lists[count - 1]? = some last) (hcount : 0 < count) (hmem : listNo ∈ call.lists) :
    listNo ∈ call.lists.take count ↔ listNo ≤ last := by
  have hsorted := h.lists_sorted
  obtain ⟨i, hi⟩ := List.mem_iff_getElem?.mp hmem
  obtain ⟨hiLt, hiEq⟩ := List.getElem?_eq_some_iff.mp hi
  obtain ⟨hLt, hEq⟩ := List.getElem?_eq_some_iff.mp hlast
  constructor
  · intro htake
    obtain ⟨j, hj⟩ := List.mem_iff_getElem?.mp htake
    rw [List.getElem?_take] at hj
    split at hj
    next hjc =>
      obtain ⟨hjLt, hjEq⟩ := List.getElem?_eq_some_iff.mp hj
      rcases Nat.lt_or_eq_of_le (Nat.le_sub_one_of_lt hjc) with hlt | heq
      · have := List.pairwise_iff_getElem.mp hsorted j (count - 1) hjLt hLt hlt
        omega
      · subst heq
        omega
    next => simp at hj
  · intro hle
    have hic : i < count := by
      by_contra hic
      have := List.pairwise_iff_getElem.mp hsorted (count - 1) i hLt hiLt (by omega)
      omega
    exact List.mem_of_getElem? (i := i) (by rw [List.getElem?_take, if_pos hic, hi])

theorem planCount_zero (call : RefineCall) : call.planCount 0 = 0 := by
  rw [planCount]
  cases call.plans with
  | nil => rfl
  | cons plan plans => simp

theorem Sorted.lt_planCount_iff (h : call.Sorted) {count i : Nat} {plan : ReadPlan}
    (hplan : call.plans[i]? = some plan) :
    i < call.planCount count ↔ plan.listNo ∈ call.lists.take count := by
  rw [planCount, lt_length_takeWhile_iff ?_ hplan, decide_eq_true_eq]
  refine List.Pairwise.imp_of_mem ?_ h.plans
  intro p q hp hq hle
  simp only [decide_eq_true_eq]
  intro hqTake
  obtain ⟨j, hj⟩ := List.mem_iff_getElem?.mp hqTake
  rw [List.getElem?_take] at hj
  split at hj
  next hjc =>
    have hlength : min count call.lists.length - 1 < call.lists.length := by
      obtain ⟨hlt, -⟩ := List.getElem?_eq_some_iff.mp hj
      omega
    have hlast := List.getElem?_eq_getElem hlength
    have htake : call.lists.take count = call.lists.take (min count call.lists.length) := by
      rw [← List.take_take, List.take_length]
    rw [htake] at hqTake ⊢
    have hpos : 0 < min count call.lists.length := by
      obtain ⟨hlt, -⟩ := List.getElem?_eq_some_iff.mp hj
      omega
    rw [h.mem_take_iff hlast hpos (h.mem_lists hq)] at hqTake
    rw [h.mem_take_iff hlast hpos (h.mem_lists hp)]
    omega
  next => simp at hj

theorem planCount_le (call : RefineCall) (count : Nat) :
    call.planCount count ≤ call.plans.length :=
  (List.takeWhile_sublist _).length_le

theorem Sorted.planCount_length (h : call.Sorted) :
    call.planCount call.lists.length = call.plans.length := by
  refine Nat.le_antisymm (call.planCount_le _) (Nat.not_lt.mp fun hlt => ?_)
  have hplan := List.getElem?_eq_getElem hlt
  refine Nat.lt_irrefl _ ((h.lt_planCount_iff hplan).mpr ?_)
  rw [List.take_length]
  exact h.mem_lists (List.mem_of_getElem? hplan)

/-- The scan of a window ends where the plans of its last list do. -/
theorem Sorted.planEnd_eq (h : call.Sorted) {listBegin : Nat}
    (hbegin : listBegin < call.lists.length) :
    call.planEnd listBegin (call.planCount listBegin) =
      call.planCount (call.listEnd listBegin) := by
  have hopen := call.options.queueDepth_pos
  have hopenLe := call.options.queueDepth_le
  have hlt : call.listEnd listBegin - 1 < call.lists.length := by
    unfold listEnd
    omega
  have hpos : 0 < call.listEnd listBegin := by
    unfold listEnd
    omega
  have hlast := List.getElem?_eq_getElem hlt
  have hgetD : call.lists.getD (call.listEnd listBegin - 1) 0 =
      call.lists[call.listEnd listBegin - 1] := by
    rw [List.getD_eq_getElem?_getD, hlast, Option.getD_some]
  have hsame : ∀ plan ∈ call.plans,
      decide (plan.listNo ≤ call.lists[call.listEnd listBegin - 1]) =
        decide (plan.listNo ∈ call.lists.take (call.listEnd listBegin)) := by
    intro plan hplan
    rw [decide_eq_decide, h.mem_take_iff hlast hpos (h.mem_lists hplan)]
  have hscan : ∀ n, ((call.plans.drop n).takeWhile fun plan =>
        decide (plan.listNo ≤ call.lists[call.listEnd listBegin - 1])) =
      (call.plans.drop n).takeWhile fun plan =>
        decide (plan.listNo ∈ call.lists.take (call.listEnd listBegin)) := by
    intro n
    have hdrop : ∀ plan ∈ call.plans.drop n, plan ∈ call.plans :=
      fun plan => List.mem_of_mem_drop
    generalize call.plans.drop n = plans at hdrop
    induction plans with
    | nil => rfl
    | cons plan plans ih =>
        rw [List.takeWhile_cons, List.takeWhile_cons, hsame plan (hdrop plan List.mem_cons_self),
          ih fun p hp => hdrop p (List.mem_cons_of_mem _ hp)]
  rw [planEnd, hgetD, hscan, planCount, takeWhile_drop_length]
  · rfl
  · intro plan _
    simp only [decide_eq_true_eq]
    intro htake
    refine (List.take_sublist_take_left ?_).subset htake
    unfold listEnd
    omega

/-- The file of every plan of a window is open. -/
theorem Sorted.mem_window (h : call.Sorted) {listBegin i : Nat} {plan : ReadPlan}
    (hbegin : call.planCount listBegin ≤ i) (hend : i < call.planCount (call.listEnd listBegin))
    (hplan : call.plans[i]? = some plan) : plan.listNo ∈ call.window listBegin := by
  have hin := (h.lt_planCount_iff hplan).mp hend
  have hout : plan.listNo ∉ call.lists.take listBegin :=
    fun hmem => Nat.not_lt.mpr hbegin ((h.lt_planCount_iff hplan).mpr hmem)
  obtain ⟨j, hj⟩ := List.mem_iff_getElem?.mp hin
  rw [List.getElem?_take] at hj
  split at hj
  next hlt =>
    have hge : listBegin ≤ j := by
      by_contra hlow
      exact hout (List.mem_of_getElem? (i := j)
        (by rw [List.getElem?_take, if_pos (by omega), hj]))
    refine List.mem_of_getElem? (i := j - listBegin) ?_
    rw [window, getElem?_slice, if_pos (by omega)]
    rwa [Nat.add_sub_cancel' hge]
  next => simp at hj

end RefineCall

end Recast
