import Mathlib

/-!
# Records in a list, each under its own key

* `nodup_concat` — a record under a fresh key joins the table.
* `map_update` — an update of the records under one key is invisible to a projection it keeps.
* `map_set`, `sum_set` — the same for the record in one place, and what its update does to a sum over all.
* `getElem?_set_of_some`, `getElem?_concat_eq_some`, `getElem?_modify_eq_some` — which record an updated table has where.
-/

namespace Table

variable {α β κ : Type*}

theorem nodup_concat {key : α → κ} {l : List α} {a : α} (h : (l.map key).Nodup) (ha : ∀ x ∈ l, key x ≠ key a) :
    ((l ++ [a]).map key).Nodup := by
  rw [List.map_append, List.nodup_append]
  refine ⟨h, List.nodup_singleton _, ?_⟩
  rintro k hk k' hk' rfl
  obtain ⟨x, hx, rfl⟩ := List.mem_map.1 hk
  exact ha x hx (List.mem_singleton.1 hk')

theorem map_update [DecidableEq κ] {key : α → κ} {k : κ} {f : α → α} {g : α → β}
    (h : ∀ x, key x = k → g (f x) = g x) (l : List α) :
    (l.map fun x => if key x = k then f x else x).map g = l.map g := by
  rw [List.map_map]
  refine List.map_congr_left fun x _ => ?_
  by_cases hx : key x = k
  · simp [hx, h x hx]
  · simp [hx]

theorem map_set {g : α → β} {l : List α} {i : Nat} {a b : α} (h : l[i]? = some a) (hg : g b = g a) :
    (l.set i b).map g = l.map g := by
  obtain ⟨hi, rfl⟩ := List.getElem?_eq_some_iff.1 h
  rw [List.map_set, hg, ← List.getElem_map g (h := by simpa using hi), List.set_getElem_self]

theorem sum_set {M : Type*} [AddCommMonoid M] (g : α → M) {l : List α} {i : Nat} {a b : α} (h : l[i]? = some a) :
    ((l.set i b).map g).sum + g a = (l.map g).sum + g b := by
  obtain ⟨hi, rfl⟩ := List.getElem?_eq_some_iff.1 h
  have hold : (l[i] :: l.eraseIdx i).Perm l := List.getElem_cons_eraseIdx_perm hi
  have hnew : (b :: l.eraseIdx i).Perm (l.set i b) := by
    have hlt : i < (l.set i b).length := by simpa using hi
    have hperm := List.getElem_cons_eraseIdx_perm hlt
    rwa [List.getElem_set_self, List.eraseIdx_set_eq] at hperm
  rw [← (hold.map g).sum_eq, ← (hnew.map g).sum_eq, List.map_cons, List.map_cons, List.sum_cons, List.sum_cons]
  abel

theorem getElem?_set_of_some {l : List α} {i j : Nat} {a b c : α} (hi : l[i]? = some a) (hj : (l.set i b)[j]? = some c) :
    (j = i ∧ c = b) ∨ (j ≠ i ∧ l[j]? = some c) := by
  obtain ⟨hlt, -⟩ := List.getElem?_eq_some_iff.1 hi
  by_cases he : j = i
  · subst he
    rw [List.getElem?_set_self hlt] at hj
    exact .inl ⟨rfl, (Option.some.inj hj).symm⟩
  · rw [List.getElem?_set_ne (Ne.symm he)] at hj
    exact .inr ⟨he, hj⟩

theorem getElem?_concat_eq_some {l : List α} {i : Nat} {a b : α} :
    (l ++ [b])[i]? = some a ↔ l[i]? = some a ∨ i = l.length ∧ a = b := by
  rcases Nat.lt_trichotomy i l.length with hi | hi | hi
  · simp [List.getElem?_append_left hi, Nat.ne_of_lt hi]
  · subst hi
    simp [eq_comm]
  · simp [List.getElem?_eq_none (Nat.le_of_lt hi), Nat.ne_of_gt hi, Nat.not_le_of_lt hi]

theorem getElem?_modify_of_some {l : List α} {i j : Nat} {a : α} (f : α → α) (h : l[j]? = some a) :
    (l.modify i f)[j]? = some (if i = j then f a else a) := by
  rw [List.getElem?_modify, h]
  rfl

theorem getElem?_modify_eq_some {l : List α} {i j : Nat} {f : α → α} {b : α} (h : (l.modify i f)[j]? = some b) :
    ∃ a, l[j]? = some a ∧ b = if i = j then f a else a := by
  cases ha : l[j]? with
  | none => simp [List.getElem?_modify, ha] at h
  | some a =>
    rw [getElem?_modify_of_some f ha] at h
    exact ⟨a, rfl, (Option.some.inj h).symm⟩

end Table
