/-!
# Keyed lists

A list whose entries carry a key is read by the first entry of a key. `put` writes an entry and
`modifyFirst` changes one; both leave every other entry, and the order, as they were. The laws come
in pairs, for the key that was written and for every other key, and `nodup_map_put` says that
distinct keys stay distinct.
-/

namespace SchemaGrowth.Keyed

variable {α κ : Type} [DecidableEq κ]

/-- The first entry with the key `k`. -/
def get? (key : α → κ) (k : κ) (xs : List α) : Option α :=
  xs.find? fun x => key x = k

/-- Replaces the first entry that has the key of `x` by `x`, or appends `x`. -/
def put (key : α → κ) (x : α) : List α → List α
  | [] => [x]
  | y :: ys => if key y = key x then x :: ys else y :: put key x ys

/-- Changes the first entry with the key `k`. -/
def modifyFirst (key : α → κ) (k : κ) (f : α → α) : List α → List α
  | [] => []
  | y :: ys => if key y = k then f y :: ys else y :: modifyFirst key k f ys

/-! ## Look-up -/

@[simp] theorem get?_nil (key : α → κ) (k : κ) : get? key k [] = none := rfl

theorem get?_cons (key : α → κ) (k : κ) (y : α) (ys : List α) :
    get? key k (y :: ys) = if key y = k then some y else get? key k ys := by
  by_cases h : key y = k <;> simp [get?, h]

theorem get?_put_self (key : α → κ) (x : α) (xs : List α) :
    get? key (key x) (put key x xs) = some x := by
  induction xs with
  | nil => simp [put, get?_cons]
  | cons y ys ih =>
    by_cases h : key y = key x
    · simp [put, h, get?_cons]
    · simp [put, h, get?_cons, ih]

theorem get?_put_ne {key : α → κ} {k : κ} {x : α} (h : key x ≠ k) (xs : List α) :
    get? key k (put key x xs) = get? key k xs := by
  induction xs with
  | nil => simp [put, get?_cons, h]
  | cons y ys ih =>
    by_cases hy : key y = key x
    · have hk : key y ≠ k := fun e => h (hy.symm.trans e)
      simp [put, hy, get?_cons, h]
    · simp [put, hy, get?_cons, ih]

theorem get?_modifyFirst_self {key : α → κ} {k : κ} {f : α → α}
    (hf : ∀ x, key (f x) = key x) (xs : List α) :
    get? key k (modifyFirst key k f xs) = (get? key k xs).map f := by
  induction xs with
  | nil => rfl
  | cons y ys ih =>
    by_cases hy : key y = k
    · simp [modifyFirst, hy, get?_cons, hf]
    · simp [modifyFirst, hy, get?_cons, ih]

theorem get?_modifyFirst_ne {key : α → κ} {k k' : κ} {f : α → α}
    (hf : ∀ x, key (f x) = key x) (h : k ≠ k') (xs : List α) :
    get? key k' (modifyFirst key k f xs) = get? key k' xs := by
  induction xs with
  | nil => rfl
  | cons y ys ih =>
    by_cases hy : key y = k
    · subst hy
      simp [modifyFirst, get?_cons, hf, h]
    · simp [modifyFirst, hy, get?_cons, ih]

/-! ## Keys and their order -/

/-- A key that is there keeps its place. -/
theorem map_put_of_mem {key : α → κ} {x : α} {xs : List α} (h : key x ∈ xs.map key) :
    (put key x xs).map key = xs.map key := by
  induction xs with
  | nil => cases h
  | cons y ys ih =>
    by_cases hy : key y = key x
    · simp [put, hy]
    · have hx : key x ∈ ys.map key := by
        rcases List.mem_cons.mp h with e | e
        · exact absurd e.symm hy
        · exact e
      simp only [put, if_neg hy, List.map_cons, ih hx]

/-- A new key comes last. -/
theorem map_put_of_not_mem {key : α → κ} {x : α} {xs : List α} (h : key x ∉ xs.map key) :
    (put key x xs).map key = xs.map key ++ [key x] := by
  induction xs with
  | nil => rfl
  | cons y ys ih =>
    have hy : key y ≠ key x := fun e => h (by simp [e])
    have hx : key x ∉ ys.map key := fun m => h (List.mem_cons_of_mem _ m)
    simp only [put, if_neg hy, List.map_cons, ih hx, List.cons_append]

theorem map_modifyFirst {key : α → κ} {f : α → α} (hf : ∀ x, key (f x) = key x) (k : κ)
    (xs : List α) : (modifyFirst key k f xs).map key = xs.map key := by
  induction xs with
  | nil => rfl
  | cons y ys ih =>
    by_cases h : key y = k
    · simp [modifyFirst, h, hf]
    · simp [modifyFirst, h, ih]

/-- Distinct keys stay distinct. -/
theorem nodup_map_put {key : α → κ} {xs : List α} (h : (xs.map key).Nodup) (x : α) :
    ((put key x xs).map key).Nodup := by
  by_cases hx : key x ∈ xs.map key
  · rw [map_put_of_mem hx]
    exact h
  · rw [map_put_of_not_mem hx, List.nodup_append]
    refine ⟨h, by simp, ?_⟩
    intro a ha b hb e
    obtain rfl := List.mem_singleton.mp hb
    exact hx (e ▸ ha)

end SchemaGrowth.Keyed
