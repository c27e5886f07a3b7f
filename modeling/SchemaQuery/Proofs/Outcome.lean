import Mathlib.Data.List.Forall2

/-!
# Steps that may fail

Every stage of the pipeline is a sequence of steps in `Except`, most of them lists of steps of
one kind.  The lemmas here open such a sequence once, so that no later proof unfolds a bind or
a traversal of its own.

## Main statements

* `bind_eq_ok_iff` - a sequence succeeds exactly when its steps do.
* `mapM_eq_ok_iff` - a traversal succeeds exactly when it does item by item.
* `exists_mapM_eq_ok_iff` - the same, without naming the results.
* `eq_iff_map_eq_of_mapM` - a traversal tells lists apart as its steps tell their items.
* `failure?_bind`, `failure?_mapM` - a sequence fails as the first of its steps that fails.
-/

namespace SchemaQuery.Outcome

universe u

variable {ε ε' α β : Type u}

@[simp] theorem pure_eq_ok (a : α) : (pure a : Except ε α) = .ok a := rfl

@[simp] theorem ok_bind (a : α) (f : α → Except ε β) : (Except.ok a >>= f) = f a := rfl

@[simp] theorem error_bind (e : ε) (f : α → Except ε β) :
    ((Except.error e : Except ε α) >>= f) = .error e := rfl

/-- Two steps succeed exactly when the first does and the second does with its result. -/
theorem bind_eq_ok_iff {x : Except ε α} {f : α → Except ε β} {b : β} :
    x >>= f = .ok b ↔ ∃ a, x = .ok a ∧ f a = .ok b := by
  cases x with
  | error e => simp
  | ok a => simp

/-- Renaming the error of a step does not touch its success. -/
@[simp] theorem mapError_eq_ok_iff {x : Except ε α} {f : ε → ε'} {a : α} :
    x.mapError f = .ok a ↔ x = .ok a := by
  cases x <;> simp [Except.mapError]

/-- A traversal succeeds exactly when every item does, and its results stand in the order of
the items. -/
theorem mapM_eq_ok_iff {f : α → Except ε β} {xs : List α} {ys : List β} :
    xs.mapM f = .ok ys ↔ List.Forall₂ (fun x y => f x = .ok y) xs ys := by
  induction xs generalizing ys with
  | nil => cases ys <;> simp
  | cons x rest ih =>
      rw [List.mapM_cons]
      simp only [bind_eq_ok_iff, pure_eq_ok, Except.ok.injEq, List.forall₂_cons_left_iff, ih]
      constructor
      · rintro ⟨y, hy, ys', hys', rfl⟩
        exact ⟨y, ys', hy, hys', rfl⟩
      · rintro ⟨y, ys', hy, hys', rfl⟩
        exact ⟨y, hy, ys', hys', rfl⟩

/-- A traversal has a result exactly when every item has one. -/
theorem exists_mapM_eq_ok_iff {f : α → Except ε β} {xs : List α} :
    (∃ ys, xs.mapM f = .ok ys) ↔ ∀ x ∈ xs, ∃ y, f x = .ok y := by
  simp only [mapM_eq_ok_iff]
  induction xs with
  | nil => simp
  | cons x rest ih =>
      simp only [List.forall₂_cons_left_iff, List.forall_mem_cons, ← ih]
      constructor
      · rintro ⟨-, y, ys, hy, hys, rfl⟩
        exact ⟨⟨y, hy⟩, ys, hys⟩
      · rintro ⟨⟨y, hy⟩, ys, hys⟩
        exact ⟨y :: ys, y, ys, hy, hys, rfl⟩

/-- A traversal whose items are guarded succeeds exactly when every guard holds, and then maps
the list. -/
theorem mapM_guarded {f : α → Except ε β} {p : α → Prop} {g : α → β}
    (hf : ∀ {x y}, f x = .ok y ↔ p x ∧ y = g x) {xs : List α} {ys : List β} :
    xs.mapM f = .ok ys ↔ (∀ x ∈ xs, p x) ∧ ys = xs.map g := by
  simp only [mapM_eq_ok_iff, hf]
  induction xs generalizing ys with
  | nil => simp
  | cons x rest ih =>
      simp only [List.forall₂_cons_left_iff, ih, List.forall_mem_cons, List.map_cons]
      constructor
      · rintro ⟨_, _, ⟨hx, rfl⟩, ⟨hrest, rfl⟩, rfl⟩
        exact ⟨⟨hx, hrest⟩, rfl⟩
      · rintro ⟨⟨hx, hrest⟩, rfl⟩
        exact ⟨_, _, ⟨hx, rfl⟩, ⟨hrest, rfl⟩, rfl⟩

/-- Of two lists that are related item by item, every item of the one has a partner in the
other. -/
theorem exists_of_mem_forall₂ {R : α → β → Prop} {xs : List α} {ys : List β} {x : α}
    (h : List.Forall₂ R xs ys) (mem : x ∈ xs) : ∃ y ∈ ys, R x y := by
  induction h with
  | nil => simp at mem
  | cons head _ ih =>
      rcases List.mem_cons.mp mem with rfl | mem
      · exact ⟨_, List.mem_cons_self, head⟩
      · obtain ⟨y, hy, hxy⟩ := ih mem
        exact ⟨y, List.mem_cons_of_mem _ hy, hxy⟩

/-- A traversal that succeeds does so with the same results wherever every step that succeeds
does. -/
theorem mapM_imp {f g : α → Except ε β} (step : ∀ {x y}, f x = .ok y → g x = .ok y) {xs : List α}
    {ys : List β} (h : xs.mapM f = .ok ys) : xs.mapM g = .ok ys :=
  mapM_eq_ok_iff.mpr ((mapM_eq_ok_iff.mp h).imp fun _ _ => step)

/-- Every result of a traversal is the result of one of the items. -/
theorem exists_of_mem_mapM {f : α → Except ε β} {xs : List α} {ys : List β} {y : β}
    (h : xs.mapM f = .ok ys) (mem : y ∈ ys) : ∃ x ∈ xs, f x = .ok y :=
  exists_of_mem_forall₂ (mapM_eq_ok_iff.mp h).flip mem

/-- The result of an item of a traversal stands at the position of the item. -/
theorem exists_getElem?_of_mapM {f : α → Except ε β} {xs : List α} {ys : List β} {i : Nat} {x : α}
    (h : xs.mapM f = .ok ys) (hx : xs[i]? = some x) : ∃ y, ys[i]? = some y ∧ f x = .ok y := by
  rw [mapM_eq_ok_iff] at h
  induction h generalizing i with
  | nil => simp at hx
  | cons head _ ih =>
      cases i with
      | zero =>
          obtain rfl := Option.some.inj hx
          exact ⟨_, rfl, head⟩
      | succ i => exact ih hx

/-- A traversal whose steps keep some attribute of their items keeps the list of the
attributes. -/
theorem map_eq_of_mapM {γ : Type u} {f : α → Except ε β} {xs : List α} {ys : List β} {g : α → γ}
    {k : β → γ} (h : xs.mapM f = .ok ys) (keep : ∀ x y, f x = .ok y → k y = g x) :
    ys.map k = xs.map g := by
  rw [mapM_eq_ok_iff] at h
  induction h with
  | nil => rfl
  | cons head _ ih => rw [List.map_cons, List.map_cons, keep _ _ head, ih]

/-- A traversal whose steps tell apart the results of two items exactly when some attribute
tells apart the items does the same for two lists. -/
theorem map_eq_map_iff_of_mapM {γ δ : Type u} {f : α → Except ε β} {xs xs' : List α}
    {ys ys' : List β} {g : α → γ} {k : β → δ} (h : xs.mapM f = .ok ys) (h' : xs'.mapM f = .ok ys')
    (step : ∀ x ∈ xs, ∀ x' ∈ xs', ∀ {y y'}, f x = .ok y → f x' = .ok y' →
      (k y = k y' ↔ g x = g x')) :
    ys.map k = ys'.map k ↔ xs.map g = xs'.map g := by
  rw [mapM_eq_ok_iff] at h h'
  induction h generalizing xs' ys' with
  | nil => cases h' <;> simp
  | cons head _ ih =>
      cases h' with
      | nil => simp
      | cons head' rest' =>
          have hrest := ih rest' fun x hx x' hx' =>
            step x (List.mem_cons_of_mem _ hx) x' (List.mem_cons_of_mem _ hx')
          rw [List.map_cons, List.map_cons, List.map_cons, List.map_cons, List.cons.injEq,
            List.cons.injEq, hrest,
            step _ List.mem_cons_self _ List.mem_cons_self head head']

/-- The same where the results themselves are told apart. -/
theorem eq_iff_map_eq_of_mapM {γ : Type u} {f : α → Except ε β} {xs xs' : List α}
    {ys ys' : List β} {g : α → γ} (h : xs.mapM f = .ok ys) (h' : xs'.mapM f = .ok ys')
    (step : ∀ {x x' y y'}, f x = .ok y → f x' = .ok y' → (y = y' ↔ g x = g x')) :
    ys = ys' ↔ xs.map g = xs'.map g := by
  have hmap := map_eq_map_iff_of_mapM (k := id) h h' fun _ _ _ _ _ _ => step
  rwa [List.map_id, List.map_id] at hmap

/-! ## Failures -/

/-- The error of a step that fails. -/
def failure? : Except ε α → Option ε
  | .ok _ => none
  | .error e => some e

@[simp] theorem failure?_ok (a : α) : failure? (.ok a : Except ε α) = none := rfl

@[simp] theorem failure?_error (e : ε) : failure? (.error e : Except ε α) = some e := rfl

theorem failure?_eq_some_iff {x : Except ε α} {e : ε} : failure? x = some e ↔ x = .error e := by
  cases x <;> simp

theorem failure?_eq_none_iff {x : Except ε α} : failure? x = none ↔ ∃ a, x = .ok a := by
  cases x <;> simp

/-- Of two steps the first that fails gives the error, if the second fails in one way whatever
the result of the first is. -/
theorem failure?_bind {x : Except ε α} {f : α → Except ε β} {e : Option ε}
    (h : ∀ a, x = .ok a → failure? (f a) = e) : failure? (x >>= f) = (failure? x).or e := by
  cases x with
  | error e => rfl
  | ok a => exact h a rfl

/-- A step whose result is only wrapped fails as before. -/
theorem failure?_map {x : Except ε α} {g : α → β} :
    failure? (x >>= fun a => pure (g a)) = failure? x := by
  cases x <;> rfl

/-- **A traversal fails as the first of its items that fails.** -/
theorem failure?_mapM {f : α → Except ε β} {g : α → Option ε} {xs : List α}
    (h : ∀ x ∈ xs, failure? (f x) = g x) : failure? (xs.mapM f) = xs.findSome? g := by
  induction xs with
  | nil => rfl
  | cons x rest ih =>
      obtain ⟨hx, hrest⟩ := List.forall_mem_cons.mp h
      have hrest (y : β) : failure? (rest.mapM f >>= fun ys => pure (y :: ys))
          = rest.findSome? g := by
        rw [failure?_map, ih hrest]
      rw [List.mapM_cons, failure?_bind fun y _ => hrest y, hx, List.findSome?_cons]
      cases g x <;> rfl

end SchemaQuery.Outcome
