import Mathlib.Data.List.Forall2

/-!
# Fallible computations

Inversion of a computation that returned: which steps it took.
-/

namespace Foundation

universe u

variable {ε : Type*} {α β : Type u}

@[simp] theorem ok_bind (a : α) (f : α → Except ε β) : (Except.ok a >>= f) = f a := rfl

@[simp] theorem error_bind (e : ε) (f : α → Except ε β) :
    ((Except.error e : Except ε α) >>= f) = .error e := rfl

@[simp] theorem pure_eq_ok (a : α) : (pure a : Except ε α) = .ok a := rfl

theorem bind_eq_ok {x : Except ε α} {f : α → Except ε β} {b : β} :
    (x >>= f) = .ok b ↔ ∃ a, x = .ok a ∧ f a = .ok b := by
  cases x with
  | error e => simp
  | ok a => simp

theorem bind_eq_error {x : Except ε α} {f : α → Except ε β} {e : ε} :
    (x >>= f) = .error e ↔ x = .error e ∨ ∃ a, x = .ok a ∧ f a = .error e := by
  cases x with
  | error e' => simp
  | ok a => simp

/-- A guard that raises: the computation returned, so the guard was off. -/
theorem guard_eq_ok {c : Prop} [Decidable c] {e : ε} {x : Except ε α} {a : α} :
    (if c then .error e else x) = Except.ok a ↔ ¬c ∧ x = .ok a := by
  split
  next h => simp [h]
  next h => simp [h]

/-- Computations that agree under a map throw the same exception, or return values that agree. -/
theorem map_eq_map_iff {γ : Type*} {f : α → γ} {g : β → γ} {x : Except ε α} {y : Except ε β} :
    x.map f = y.map g ↔
      (∃ error, x = .error error ∧ y = .error error) ∨ ∃ a b, x = .ok a ∧ y = .ok b ∧ f a = g b := by
  cases x <;> cases y <;> simp [Except.map, eq_comm]

theorem mapM_nil_ok (f : α → Except ε β) : [].mapM f = Except.ok [] := rfl

theorem mapM_cons_except (f : α → Except ε β) (x : α) (xs : List α) :
    (x :: xs).mapM f = (f x >>= fun y => xs.mapM f >>= fun ys => .ok (y :: ys)) := by
  rw [List.mapM_cons]
  rfl

/-- What a fallible map that returned says of its entries and results. -/
theorem mapM_ok_entries {f : α → Except ε β} {xs : List α} {ys : List β}
    (h : xs.mapM f = .ok ys) {γ : Type*} {g : α → γ} {k : β → γ}
    (hk : ∀ x ∈ xs, ∀ y, f x = .ok y → k y = g x) :
    ys.map k = xs.map g ∧ ∀ y ∈ ys, ∃ x ∈ xs, f x = .ok y := by
  induction xs generalizing ys with
  | nil =>
      obtain rfl : [] = ys := Except.ok.inj h
      simp
  | cons x xs ih =>
      rw [mapM_cons_except, bind_eq_ok] at h
      obtain ⟨y, hy, hrest⟩ := h
      obtain ⟨zs, hzs, hcons⟩ := bind_eq_ok.mp hrest
      obtain rfl := Except.ok.inj hcons
      obtain ⟨hmap, hmem⟩ := ih hzs fun x hx => hk x (List.mem_cons_of_mem _ hx)
      refine ⟨by rw [List.map_cons, List.map_cons, hmap, hk x List.mem_cons_self y hy], ?_⟩
      intro y' hy'
      rcases List.mem_cons.mp hy' with rfl | hy'
      · exact ⟨x, List.mem_cons_self, hy⟩
      · obtain ⟨x', hx', hfx'⟩ := hmem y' hy'
        exact ⟨x', List.mem_cons_of_mem _ hx', hfx'⟩

theorem length_mapM_ok {f : α → Except ε β} {xs : List α} {ys : List β}
    (h : xs.mapM f = .ok ys) : ys.length = xs.length := by
  have hmap := (mapM_ok_entries h (g := fun _ => ()) (k := fun _ => ()) fun _ _ _ _ => rfl).1
  simpa using congrArg List.length hmap

/-- A fallible map that succeeds on every entry is a map. -/
theorem mapM_ok_of_forall {f : α → Except ε β} {g : α → β} {xs : List α}
    (h : ∀ x ∈ xs, f x = .ok (g x)) : xs.mapM f = .ok (xs.map g) := by
  induction xs with
  | nil => rfl
  | cons x xs ih =>
      rw [mapM_cons_except, h x List.mem_cons_self, ok_bind,
        ih fun x hx => h x (List.mem_cons_of_mem _ hx)]
      rfl

/-- A fallible map that returned succeeded on every entry. -/
theorem forall_of_mapM_ok {f : α → Except ε β} {xs : List α} {ys : List β}
    (h : xs.mapM f = .ok ys) : ∀ x ∈ xs, ∃ y, f x = .ok y := by
  induction xs generalizing ys with
  | nil => simp
  | cons x xs ih =>
      rw [mapM_cons_except, bind_eq_ok] at h
      obtain ⟨y, hy, hrest⟩ := h
      obtain ⟨zs, hzs, -⟩ := bind_eq_ok.mp hrest
      exact List.forall_mem_cons.mpr ⟨⟨y, hy⟩, ih hzs⟩

/-- A fallible map that succeeds on every entry returns. -/
theorem exists_mapM_ok {f : α → Except ε β} {xs : List α} (h : ∀ x ∈ xs, ∃ y, f x = .ok y) :
    ∃ ys, xs.mapM f = .ok ys := by
  induction xs with
  | nil => exact ⟨[], rfl⟩
  | cons x xs ih =>
      obtain ⟨y, hy⟩ := h x List.mem_cons_self
      obtain ⟨ys, hys⟩ := ih fun x hx => h x (List.mem_cons_of_mem _ hx)
      exact ⟨y :: ys, by rw [mapM_cons_except, hy, ok_bind, hys, ok_bind]⟩

theorem toOption_eq_some {x : Except ε α} {a : α} (h : x.toOption = some a) : x = .ok a := by
  cases x with
  | error e => cases h
  | ok b => exact congrArg Except.ok (Option.some.inj h)

theorem toOption_eq_none {x : Except ε α} (h : x.toOption = none) : ∃ e, x = .error e := by
  cases x with
  | error e => exact ⟨e, rfl⟩
  | ok a => cases h

/-- Steps with the same outcomes up to what they throw give the same outcome. -/
theorem mapM_toOption_congr {f g : α → Except ε β} {xs : List α}
    (h : ∀ x ∈ xs, (f x).toOption = (g x).toOption) :
    (xs.mapM f).toOption = (xs.mapM g).toOption := by
  induction xs with
  | nil => rfl
  | cons x rest ih =>
      obtain ⟨hhead, hrest⟩ := List.forall_mem_cons.mp h
      have ih := ih hrest
      rw [mapM_cons_except, mapM_cons_except]
      cases hf : f x with
      | error e =>
          rw [hf] at hhead
          obtain ⟨e', hg⟩ := toOption_eq_none hhead.symm
          rw [hg]
          rfl
      | ok y =>
          rw [hf] at hhead
          rw [toOption_eq_some hhead.symm, ok_bind, ok_bind]
          cases hall : rest.mapM f with
          | error e =>
              rw [hall] at ih
              obtain ⟨e', hg⟩ := toOption_eq_none ih.symm
              rw [hg]
              rfl
          | ok ys =>
              rw [hall] at ih
              rw [toOption_eq_some ih.symm]

end Foundation
