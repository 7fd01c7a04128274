import Mathlib.Data.List.Induction
import SchemaGrowth.Keyed

/-!
# First occurrences

`List.eraseDups` keeps of every value its first occurrence. This module says how it grows with the
list, and what a keyed list holds after many entries were put into it: the keys in the order in
which they were first seen (`map_foldl_put`), each with the entry that was put last
(`get?_foldl_put`). So an entry makes no difference exactly if neither its place nor what it says
is its own (`foldl_put_append_cons_iff`).
-/

namespace SchemaGrowth

section FirstSeen

variable {α : Type} [BEq α] [LawfulBEq α]

/-- A value that was seen before changes nothing. -/
theorem eraseDups_concat_of_mem {x : α} {xs : List α} (h : x ∈ xs) :
    (xs ++ [x]).eraseDups = xs.eraseDups := by
  rw [List.eraseDups_append]
  simp [List.removeAll, h]

/-- A new value comes last. -/
theorem eraseDups_concat_of_not_mem {x : α} {xs : List α} (h : x ∉ xs) :
    (xs ++ [x]).eraseDups = xs.eraseDups ++ [x] := by
  rw [List.eraseDups_append]
  simp [List.removeAll, h, List.eraseDups_cons]

theorem nodup_eraseDups (xs : List α) : xs.eraseDups.Nodup := by
  induction xs using List.reverseRecOn with
  | nil => simp
  | append_singleton xs x ih =>
    by_cases h : x ∈ xs
    · rw [eraseDups_concat_of_mem h]
      exact ih
    · rw [eraseDups_concat_of_not_mem h, List.nodup_append]
      refine ⟨ih, by simp, ?_⟩
      intro a ha b hb e
      obtain rfl := List.mem_singleton.mp hb
      subst e
      exact h (List.mem_eraseDups.mp ha)

/-- What was seen first stays first. -/
theorem eraseDups_prefix_append (xs ys : List α) : xs.eraseDups <+: (xs ++ ys).eraseDups := by
  rw [List.eraseDups_append]
  exact List.prefix_append _ _

/-- Values that were all seen before change nothing. -/
theorem eraseDups_append_of_subset {xs ys : List α} (h : ∀ y ∈ ys, y ∈ xs) :
    (xs ++ ys).eraseDups = xs.eraseDups := by
  have hr : ys.removeAll xs = [] := by
    rw [List.removeAll, List.filter_eq_nil_iff]
    intro y hy
    simp [h y hy]
  rw [List.eraseDups_append, hr, List.eraseDups_nil, List.append_nil]

/-- A list without repetitions is left alone. -/
theorem eraseDups_of_nodup {xs : List α} (h : xs.Nodup) : xs.eraseDups = xs := by
  induction xs using List.reverseRecOn with
  | nil => rfl
  | append_singleton xs x ih =>
    obtain ⟨hxs, -, hd⟩ := List.nodup_append.mp h
    have hx : x ∉ xs := fun m => hd x m x (by simp) rfl
    rw [eraseDups_concat_of_not_mem hx, ih hxs]

/-- Repetitions may be erased before or after more values follow. -/
theorem eraseDups_eraseDups_append (xs ys : List α) :
    (xs.eraseDups ++ ys).eraseDups = (xs ++ ys).eraseDups := by
  have hr : ys.removeAll xs.eraseDups = ys.removeAll xs := by
    simp [List.removeAll]
  rw [List.eraseDups_append, List.eraseDups_append, hr, eraseDups_of_nodup (nodup_eraseDups xs)]

/-- A value among others makes no difference if it was seen before, or is the next new one that
comes anyway. -/
theorem eraseDups_append_cons_iff {x : α} {xs ys : List α} :
    (xs ++ x :: ys).eraseDups = (xs ++ ys).eraseDups
      ↔ x ∈ xs ∨ ∃ between rest, ys = between ++ x :: rest ∧ ∀ y ∈ between, y ∈ xs := by
  rw [List.eraseDups_append, List.eraseDups_append, List.append_cancel_left_eq]
  by_cases hx : x ∈ xs
  · simp [List.removeAll, hx]
  · have hcons : (x :: ys).removeAll xs = x :: ys.removeAll xs := by
      simp [List.removeAll, hx]
    rw [hcons, List.eraseDups_cons]
    constructor
    · intro h
      cases hr : ys.removeAll xs with
      | nil => simp [hr] at h
      | cons y later =>
        rw [hr, List.eraseDups_cons] at h
        obtain rfl : x = y := (List.cons.inj h).1
        obtain ⟨between, rest, rfl, hbetween, -, -⟩ := List.filter_eq_cons_iff.mp hr
        exact .inr ⟨between, rest, rfl, by simpa using hbetween⟩
    · rintro (hmem | ⟨between, rest, rfl, hbetween⟩)
      · exact absurd hmem hx
      · have hr : (between ++ x :: rest).removeAll xs = x :: rest.removeAll xs := by
          refine List.filter_eq_cons_iff.mpr ⟨between, rest, rfl, ?_, ?_, rfl⟩
          · simpa using hbetween
          · simpa using hx
        rw [hr, List.eraseDups_cons]
        simp

end FirstSeen

namespace Keyed

variable {α κ : Type} [DecidableEq κ]

/-- An entry whose key stands in the second of two lists only is put there. -/
theorem put_append {key : α → κ} {x : α} {xs : List α} (h : key x ∉ xs.map key) (ys : List α) :
    put key x (xs ++ ys) = xs ++ put key x ys := by
  induction xs with
  | nil => rfl
  | cons z zs ih =>
    have hz : key z ≠ key x := fun e => h (by simp [e])
    have hzs : key x ∉ zs.map key := fun m => h (List.mem_cons_of_mem _ m)
    rw [List.cons_append, put, if_neg hz, ih hzs, List.cons_append]

theorem modifyFirst_append {key : α → κ} {k : κ} {xs : List α} (h : k ∉ xs.map key) (f : α → α)
    (ys : List α) : modifyFirst key k f (xs ++ ys) = xs ++ modifyFirst key k f ys := by
  induction xs with
  | nil => rfl
  | cons z zs ih =>
    have hz : key z ≠ k := fun e => h (by simp [e])
    have hzs : k ∉ zs.map key := fun m => h (List.mem_cons_of_mem _ m)
    rw [List.cons_append, modifyFirst, if_neg hz, ih hzs, List.cons_append]

/-- An entry with a new key comes last. -/
theorem put_of_not_mem {key : α → κ} {x : α} {xs : List α} (h : key x ∉ xs.map key) :
    put key x xs = xs ++ [x] := by
  have happend := put_append h []
  rwa [List.append_nil] at happend

/-- Entries with distinct keys are put one behind the other. -/
theorem foldl_put_of_nodup {key : α → κ} {xs : List α} (h : (xs.map key).Nodup) :
    xs.foldl (fun ys x => put key x ys) [] = xs := by
  induction xs using List.reverseRecOn with
  | nil => rfl
  | append_singleton xs x ih =>
    rw [List.map_append, List.nodup_append] at h
    obtain ⟨hxs, -, hd⟩ := h
    have hx : key x ∉ xs.map key := fun hm => hd _ hm (key x) (by simp) rfl
    rw [List.foldl_append, ih hxs]
    exact put_of_not_mem hx

/-- Of many entries, the keys stand in the order in which they were first seen. -/
theorem map_foldl_put [BEq κ] [LawfulBEq κ] (key : α → κ) (xs : List α) :
    (xs.foldl (fun ys x => put key x ys) []).map key = (xs.map key).eraseDups := by
  induction xs using List.reverseRecOn with
  | nil => rfl
  | append_singleton xs x ih =>
    rw [List.foldl_append, List.map_append]
    by_cases h : key x ∈ xs.map key
    · have hk : key x ∈ (xs.foldl (fun ys x => put key x ys) []).map key := by
        rw [ih]
        exact List.mem_eraseDups.mpr h
      exact (map_put_of_mem hk).trans (ih.trans (eraseDups_concat_of_mem h).symm)
    · have hk : key x ∉ (xs.foldl (fun ys x => put key x ys) []).map key := by
        rw [ih]
        exact fun m => h (List.mem_eraseDups.mp m)
      refine (map_put_of_not_mem hk).trans ?_
      rw [ih]
      exact (eraseDups_concat_of_not_mem h).symm

/-- Of many entries with one key, the last one is read. -/
theorem get?_foldl_put (key : α → κ) (k : κ) (xs ys : List α) :
    get? key k (xs.foldl (fun ys x => put key x ys) ys)
      = (get? key k xs.reverse).or (get? key k ys) := by
  induction xs using List.reverseRecOn with
  | nil => simp
  | append_singleton xs x ih =>
    simp only [List.foldl_append, List.foldl_cons, List.foldl_nil, List.reverse_append,
      List.reverse_cons, List.reverse_nil, List.nil_append, List.cons_append, get?_cons]
    by_cases h : key x = k
    · subst h
      simp [get?_put_self]
    · rw [get?_put_ne h, ih, if_neg h]

/-- With distinct keys, every entry is the one that is read. -/
theorem get?_of_mem {key : α → κ} {xs : List α} (h : (xs.map key).Nodup) {x : α} (hx : x ∈ xs) :
    get? key (key x) xs = some x := by
  induction xs with
  | nil => cases hx
  | cons y ys ih =>
    obtain ⟨hy, hys⟩ := List.nodup_cons.mp h
    rw [get?_cons]
    rcases List.mem_cons.mp hx with rfl | hx
    · simp
    · have hne : key y ≠ key x := fun e => hy (e ▸ List.mem_map_of_mem hx)
      rw [if_neg hne, ih hys hx]

/-- Lists with the same distinct keys are the same if they are read alike. -/
theorem eq_of_get?_eq {key : α → κ} {xs ys : List α} (h : (xs.map key).Nodup)
    (hkeys : xs.map key = ys.map key) (hget : ∀ k, get? key k xs = get? key k ys) : xs = ys := by
  have hread : ∀ zs : List α, (zs.map key).Nodup →
      (zs.map key).map (fun k => get? key k zs) = zs.map some := by
    intro zs hzs
    rw [List.map_map]
    exact List.map_congr_left fun z hz => get?_of_mem hzs hz
  have hys : (ys.map key).Nodup := hkeys ▸ h
  refine (List.map_inj_right fun _ _ => Option.some.inj).mp ?_
  rw [← hread xs h, ← hread ys hys, hkeys]
  exact List.map_congr_left fun k _ => hget k

theorem get?_append (key : α → κ) (k : κ) (xs ys : List α) :
    get? key k (xs ++ ys) = (get? key k xs).or (get? key k ys) :=
  List.find?_append

theorem get?_eq_none_iff {key : α → κ} {xs : List α} {k : κ} :
    get? key k xs = none ↔ k ∉ xs.map key := by
  simp [get?]

/-- An entry among others makes no difference if its key was there already, or is the next new one
that comes anyway, and if another entry of the key comes later, or it was the last one before. -/
theorem foldl_put_append_cons_iff [BEq κ] [LawfulBEq κ] {key : α → κ} {x : α} {xs ys : List α} :
    (xs ++ x :: ys).foldl (fun zs z => put key z zs) []
        = (xs ++ ys).foldl (fun zs z => put key z zs) []
      ↔ (key x ∈ xs.map key ∨ ∃ between rest, ys.map key = between ++ key x :: rest
          ∧ ∀ k ∈ between, k ∈ xs.map key)
        ∧ (key x ∈ ys.map key ∨ get? key (key x) xs.reverse = some x) := by
  have hkeys : ((xs ++ x :: ys).foldl (fun zs z => put key z zs) []).map key
        = ((xs ++ ys).foldl (fun zs z => put key z zs) []).map key
      ↔ key x ∈ xs.map key ∨ ∃ between rest, ys.map key = between ++ key x :: rest
          ∧ ∀ k ∈ between, k ∈ xs.map key := by
    rw [map_foldl_put, map_foldl_put, List.map_append, List.map_cons, List.map_append]
    exact eraseDups_append_cons_iff
  have hget : ∀ k, get? key k ((xs ++ x :: ys).foldl (fun zs z => put key z zs) [])
        = get? key k ((xs ++ ys).foldl (fun zs z => put key z zs) [])
      ↔ (key x = k → k ∈ ys.map key ∨ get? key k xs.reverse = some x) := by
    intro k
    have hmem : k ∈ ys.map key ↔ get? key k ys.reverse ≠ none := by
      rw [ne_eq, get?_eq_none_iff]
      simp
    simp only [get?_foldl_put, List.reverse_append, List.reverse_cons, get?_append, get?_cons,
      get?_nil, Option.or_none, hmem]
    by_cases hk : key x = k
    · cases hy : get? key k ys.reverse <;> simp [hk, eq_comm]
    · simp [hk]
  constructor
  · intro h
    refine ⟨hkeys.mp (congrArg (List.map key) h), ?_⟩
    exact (hget (key x)).mp (congrArg (get? key (key x)) h) rfl
  · rintro ⟨hseen, hlast⟩
    refine eq_of_get?_eq ?_ (hkeys.mpr hseen) ?_
    · rw [map_foldl_put]
      exact nodup_eraseDups _
    · intro k
      refine (hget k).mpr ?_
      rintro rfl
      exact hlast

end Keyed

end SchemaGrowth
