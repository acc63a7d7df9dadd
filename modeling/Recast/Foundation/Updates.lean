import Mathlib.Data.List.Sort
import Mathlib.Data.List.SplitBy
import Mathlib.Logic.Function.Basic

/-!
# Batches of point updates

Writing a list of keyed values into a function, one after the other. With
distinct keys the order of the list does not matter.
-/

namespace Foundation

section Apply

variable {κ ν : Type*} [DecidableEq κ]

/-- `f` after the updates, in list order. -/
def applyUpdates (f : κ → ν) (updates : List (κ × ν)) : κ → ν :=
  updates.foldl (fun f update => Function.update f update.1 update.2) f

@[simp] theorem applyUpdates_nil (f : κ → ν) : applyUpdates f [] = f := rfl

@[simp] theorem applyUpdates_cons (f : κ → ν) (update : κ × ν) (rest : List (κ × ν)) :
    applyUpdates f (update :: rest) =
      applyUpdates (Function.update f update.1 update.2) rest := rfl

theorem applyUpdates_append (f : κ → ν) (first second : List (κ × ν)) :
    applyUpdates f (first ++ second) = applyUpdates (applyUpdates f first) second :=
  List.foldl_append

/-- A key no update names keeps its value. -/
theorem applyUpdates_of_notMem (f : κ → ν) {updates : List (κ × ν)} {key : κ}
    (h : key ∉ updates.map Prod.fst) : applyUpdates f updates key = f key := by
  induction updates generalizing f with
  | nil => rfl
  | cons update rest ih =>
      rw [List.map_cons, List.mem_cons, not_or] at h
      rw [applyUpdates_cons, ih _ h.2, Function.update_of_ne h.1]

/-- A key ends with its old value or with one an update gave it. -/
theorem applyUpdates_cases (f : κ → ν) (updates : List (κ × ν)) (key : κ) :
    (key ∉ updates.map Prod.fst ∧ applyUpdates f updates key = f key) ∨
      ∃ value, (key, value) ∈ updates ∧ applyUpdates f updates key = value := by
  induction updates generalizing f with
  | nil => exact Or.inl ⟨by simp, rfl⟩
  | cons update rest ih =>
      rw [applyUpdates_cons]
      rcases ih (Function.update f update.1 update.2) with ⟨hnot, h⟩ | ⟨value, hmem, h⟩
      · by_cases hkey : key = update.1
        · subst hkey
          rw [Function.update_self] at h
          exact Or.inr ⟨update.2, List.mem_cons_self, h⟩
        · rw [Function.update_of_ne hkey] at h
          exact Or.inl ⟨by simp [hkey, hnot], h⟩
      · exact Or.inr ⟨value, List.mem_cons_of_mem _ hmem, h⟩

/-- With distinct keys every update is visible afterwards. -/
theorem applyUpdates_of_mem (f : κ → ν) {updates : List (κ × ν)}
    (hnodup : (updates.map Prod.fst).Nodup) {key : κ} {value : ν}
    (h : (key, value) ∈ updates) : applyUpdates f updates key = value := by
  induction updates generalizing f with
  | nil => simp at h
  | cons update rest ih =>
      rw [List.map_cons, List.nodup_cons] at hnodup
      rw [applyUpdates_cons]
      rcases List.mem_cons.mp h with rfl | hrest
      · rw [applyUpdates_of_notMem _ hnodup.1, Function.update_self]
      · exact ih _ hnodup.2 hrest

/-- A key some update names does not depend on what was there before. -/
theorem applyUpdates_of_mem_keys (f g : κ → ν) {updates : List (κ × ν)} {key : κ}
    (h : key ∈ updates.map Prod.fst) : applyUpdates f updates key = applyUpdates g updates key := by
  induction updates generalizing f g with
  | nil => cases h
  | cons update rest ih =>
      rw [applyUpdates_cons, applyUpdates_cons]
      by_cases hrest : key ∈ rest.map Prod.fst
      · exact ih _ _ hrest
      · have hkey := (List.mem_cons.mp h).resolve_right hrest
        rw [applyUpdates_of_notMem _ hrest, applyUpdates_of_notMem _ hrest, hkey,
          Function.update_self, Function.update_self]

/-- What an update list makes of a key depends on the old value of that key only. -/
theorem applyUpdates_congr {f g : κ → ν} {key : κ} (updates : List (κ × ν))
    (h : f key = g key) : applyUpdates f updates key = applyUpdates g updates key := by
  induction updates generalizing f g with
  | nil => exact h
  | cons update rest ih =>
      rw [applyUpdates_cons, applyUpdates_cons]
      apply ih
      by_cases hkey : key = update.1
      · rw [hkey, Function.update_self, Function.update_self]
      · rw [Function.update_of_ne hkey, Function.update_of_ne hkey, h]

/-- Updates stored under encoded keys and values read back as the updates
themselves, at a key whose code no other updated key shares. -/
theorem read_applyUpdates_map {κ' ν' : Type*} [DecidableEq κ'] (encodeKey : κ → κ')
    {encode : ν → ν'} {read : ν' → ν} (hread : ∀ value, read (encode value) = value)
    {f : κ → ν} {f' : κ' → ν'} {key : κ} (hbase : read (f' (encodeKey key)) = f key)
    {updates : List (κ × ν)}
    (hinj : ∀ update ∈ updates, encodeKey update.1 = encodeKey key → update.1 = key) :
    read (applyUpdates f' (updates.map fun update => (encodeKey update.1, encode update.2))
        (encodeKey key)) = applyUpdates f updates key := by
  induction updates generalizing f f' with
  | nil => exact hbase
  | cons update rest ih =>
      rw [List.map_cons, applyUpdates_cons, applyUpdates_cons]
      apply ih ?_ (fun update h => hinj update (List.mem_cons_of_mem _ h))
      by_cases hkey : encodeKey update.1 = encodeKey key
      · rw [hinj update List.mem_cons_self hkey, Function.update_self, Function.update_self, hread]
      · have hne : key ≠ update.1 := fun h => hkey (by rw [h])
        rw [Function.update_of_ne (Ne.symm hkey), Function.update_of_ne hne, hbase]

theorem applyUpdates_comp {ν' : Type*} (g : ν → ν') (f : κ → ν) (updates : List (κ × ν))
    (key : κ) : applyUpdates (fun key => g (f key)) (updates.map fun update => (update.1, g update.2))
      key = g (applyUpdates f updates key) := by
  induction updates generalizing f with
  | nil => rfl
  | cons update rest ih =>
      rw [List.map_cons, applyUpdates_cons, applyUpdates_cons, ← ih]
      apply applyUpdates_congr
      by_cases hkey : key = update.1
      · rw [hkey, Function.update_self, Function.update_self]
      · rw [Function.update_of_ne hkey, Function.update_of_ne hkey]

/-- Writing a batch into a store whose writes are point updates of what it
reads. -/
theorem read_foldl_write {S : Type*} {read : S → κ → ν} {write : S → κ → ν → S} {valid : S → Prop}
    {allowed : κ → ν → Prop}
    (hwrite : ∀ s key value, valid s → allowed key value → valid (write s key value) ∧
      ∀ other, read (write s key value) other = Function.update (read s) key value other)
    {updates : List (κ × ν)} (hupdates : ∀ update ∈ updates, allowed update.1 update.2) {s : S}
    (hvalid : valid s) :
    valid (updates.foldl (fun s update => write s update.1 update.2) s) ∧
      ∀ other, read (updates.foldl (fun s update => write s update.1 update.2) s) other =
        applyUpdates (read s) updates other := by
  induction updates generalizing s with
  | nil => exact ⟨hvalid, fun _ => rfl⟩
  | cons update rest ih =>
      obtain ⟨hnext, hread⟩ := hwrite s _ _ hvalid (hupdates update List.mem_cons_self)
      obtain ⟨hvalid', hrest⟩ := ih (fun update h => hupdates update (List.mem_cons_of_mem _ h)) hnext
      refine ⟨hvalid', fun other => (hrest other).trans ?_⟩
      rw [applyUpdates_cons]
      exact applyUpdates_congr _ (hread other)

/-- Reading the keys of a batch of distinct keys gives back its values. -/
theorem map_applyUpdates_zip (f : κ → ν) {keys : List κ} {values : List ν}
    (hnodup : keys.Nodup) (hlength : keys.length = values.length) :
    keys.map (applyUpdates f (keys.zip values)) = values := by
  have hkeys : (keys.zip values).map Prod.fst = keys := List.map_fst_zip (by omega)
  apply List.ext_getElem (by simpa using hlength)
  intro i hi hi'
  rw [List.getElem_map]
  apply applyUpdates_of_mem f (by rwa [hkeys])
  rw [List.length_map] at hi
  exact List.mem_iff_getElem.mpr ⟨i, by rw [List.length_zip]; omega, List.getElem_zip⟩

theorem applyUpdates_perm (f : κ → ν) {first second : List (κ × ν)} (h : first.Perm second)
    (hnodup : (first.map Prod.fst).Nodup) : applyUpdates f first = applyUpdates f second := by
  have hnodup' : (second.map Prod.fst).Nodup := (h.map Prod.fst).nodup_iff.mp hnodup
  funext key
  by_cases hkey : key ∈ first.map Prod.fst
  · obtain ⟨⟨key', value⟩, hmem, rfl⟩ := List.mem_map.mp hkey
    rw [applyUpdates_of_mem f hnodup hmem, applyUpdates_of_mem f hnodup' (h.mem_iff.mp hmem)]
  · rw [applyUpdates_of_notMem f hkey,
      applyUpdates_of_notMem f (fun hmem => hkey ((h.map Prod.fst).mem_iff.mpr hmem))]

end Apply

section Groups

variable {α κ : Type*} [DecidableEq κ]

/-- Maximal runs of equal key: all entries of one run share their key. -/
theorem key_eq_of_mem_splitBy {key : α → κ} {xs group : List α}
    (hgroup : group ∈ xs.splitBy fun lhs rhs => key lhs == key rhs) {x y : α}
    (hx : x ∈ group) (hy : y ∈ group) : key x = key y := by
  have hchain := List.isChain_of_mem_splitBy hgroup
  have hpairwise : group.Pairwise fun lhs rhs => key lhs = key rhs := by
    have : group.IsChain fun lhs rhs => key lhs = key rhs := by simpa using hchain
    exact this.pairwise
  have : Std.Symm fun lhs rhs : α => key lhs = key rhs := ⟨fun _ _ h => h.symm⟩
  have hself : ∀ x ∈ group, (fun lhs rhs => key lhs = key rhs) x x := fun _ _ => rfl
  exact hpairwise.forall_of_forall hself hx hy

end Groups

end Foundation
