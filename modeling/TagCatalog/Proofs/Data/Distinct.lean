import Mathlib.Data.List.Basic
import Mathlib.Data.List.Induction
import TagCatalog.Data.Distinct

/-!
# Removing Repetitions

What is left of a list when only the first element of each key is kept.

The elements that are left come from the list and have different keys, and
every key of the list still has one. A list that has no repetition loses
nothing, which is what makes a view of distinct columns survive being opened
again.

The list can be taken from either end. From its start every element rules out the
later ones with its key, which is how repetitions are removed here. From its end
an element is added to what is left so far, unless it is there already. Leaving out
keys altogether can be done before or afterwards.

## Theorems

* `mem_distinctBy`: The elements that are left come from the list.
* `nodup_distinctBy`: They have different keys.
* `distinctBy_eq_nil_iff`: Only nothing has nothing left.
* `distinctBy_filter`: Keys may be left out before or afterwards.
* `mem_distinct`: No element is lost altogether.
* `distinct_concat`, `distinct_eq_foldl`: Elements added one by one.
* `pairwise_distinct`: Their order is that in which they first occur.
* `distinctBy_of_nodup`: Without repetition nothing changes.
-/

namespace TagCatalog

variable {α κ : Type} [DecidableEq κ] (key : α → κ)

theorem mem_distinctBy (l : List α) (a : α) (h : a ∈ distinctBy key l) : a ∈ l := by
  induction l with
  | nil => exact h
  | cons b r ih =>
    rw [distinctBy, List.mem_cons] at h
    rcases h with rfl | h
    · exact List.mem_cons_self
    · exact List.mem_cons_of_mem b (ih (List.mem_filter.mp h).1)

/-- The elements that are left have different keys. -/
theorem nodup_distinctBy (l : List α) : ((distinctBy key l).map key).Nodup := by
  induction l with
  | nil => exact List.nodup_nil
  | cons a r ih =>
    rw [distinctBy, List.map_cons, List.nodup_cons]
    constructor
    · intro h
      rcases List.mem_map.mp h with ⟨b, hb, hkey⟩
      exact of_decide_eq_true (List.mem_filter.mp hb).2 hkey
    · exact ih.sublist (List.filter_sublist.map key)

/-- Without repetition of a key nothing changes. -/
theorem distinctBy_of_nodup (l : List α) (h : (l.map key).Nodup) : distinctBy key l = l := by
  induction l with
  | nil => rfl
  | cons a r ih =>
    rw [List.map_cons, List.nodup_cons] at h
    rw [distinctBy, ih h.2, List.filter_eq_self.mpr]
    intro b hb
    rw [decide_eq_true_eq]
    exact fun hkey => h.1 (hkey ▸ List.mem_map_of_mem hb)

theorem distinctBy_eq_nil_iff (l : List α) : distinctBy key l = [] ↔ l = [] := by
  cases l with
  | nil => exact Iff.rfl
  | cons a r => exact iff_of_false (nomatch ·) (nomatch ·)

/-- It makes no difference whether keys are left out before or after repetitions
    are removed. -/
theorem distinctBy_filter (p : κ → Bool) (l : List α) :
    distinctBy key (l.filter fun a => p (key a)) =
      (distinctBy key l).filter fun a => p (key a) := by
  induction l with
  | nil => rfl
  | cons a r ih =>
    by_cases ha : p (key a) = true
    · rw [List.filter_cons, if_pos ha, distinctBy, distinctBy, List.filter_cons, if_pos ha, ih,
        List.filter_filter, List.filter_filter]
      simp only [Bool.and_comm]
    · rw [List.filter_cons, if_neg ha, distinctBy, List.filter_cons, if_neg ha, ih,
        List.filter_filter]
      -- What has the key of the element that is left out is left out as well.
      refine List.filter_congr fun b _ => ?_
      by_cases hb : key b = key a
      · simp [hb, ha]
      · simp [hb]

variable [DecidableEq α]

/-- The elements that are left are those of the list. -/
theorem mem_distinct (l : List α) (a : α) : a ∈ distinct l ↔ a ∈ l := by
  refine ⟨mem_distinctBy id l a, fun h => ?_⟩
  unfold distinct
  induction l with
  | nil => exact h
  | cons b r ih =>
    rw [distinctBy, List.mem_cons]
    by_cases hab : a = b
    · exact Or.inl hab
    · refine Or.inr (List.mem_filter.mpr ⟨ih ((List.mem_cons.mp h).resolve_left hab), ?_⟩)
      exact decide_eq_true hab

/-- A further element is added if it does not occur yet. -/
theorem distinct_concat (l : List α) (a : α) :
    distinct (l ++ [a]) = if a ∈ l then distinct l else distinct l ++ [a] := by
  unfold distinct
  induction l with
  | nil => rfl
  | cons b r ih =>
    rw [List.cons_append, distinctBy, ih, distinctBy]
    by_cases hr : a ∈ r
    · rw [if_pos hr, if_pos (List.mem_cons_of_mem b hr)]
    · rw [if_neg hr, List.filter_append]
      by_cases hab : a = b
      · rw [if_pos (by rw [hab]; exact List.mem_cons_self), List.filter_cons_of_neg (by simp [hab]),
          List.filter_nil, List.append_nil]
      · rw [if_neg (by rw [List.mem_cons, not_or]; exact ⟨hab, hr⟩),
          List.filter_cons_of_pos (by simp [hab]), List.filter_nil, List.cons_append]

/-- What is left is found by going through the list and adding each element that is
    not there yet. -/
theorem distinct_eq_foldl (l : List α) :
    distinct l = l.foldl (fun seen a => if a ∈ seen then seen else seen ++ [a]) [] := by
  induction l using List.reverseRecOn with
  | nil => rfl
  | append_singleton l a ih =>
    rw [List.foldl_append, ← ih, distinct_concat, List.foldl_cons, List.foldl_nil]
    simp only [mem_distinct]

/-- The elements that are left stand in the order in which they first occur. -/
theorem pairwise_distinct (l : List α) :
    (distinct l).Pairwise fun a b => l.idxOf a < l.idxOf b := by
  unfold distinct
  induction l with
  | nil => exact .nil
  | cons a r ih =>
    -- Behind the first element each one is another, and so occurs one place later.
    have hlater : ∀ b ∈ (distinctBy id r).filter (fun b => id b ≠ id a),
        (a :: r).idxOf b = r.idxOf b + 1 := by
      intro b hb
      have hne : b ≠ a := of_decide_eq_true (List.mem_filter.mp hb).2
      exact List.idxOf_cons_ne r hne.symm
    rw [distinctBy, List.pairwise_cons]
    constructor
    · intro b hb
      rw [hlater b hb, List.idxOf_cons_self]
      exact Nat.succ_pos _
    · refine (ih.filter _).imp_of_mem fun hb hc h => ?_
      rw [hlater _ hb, hlater _ hc]
      exact Nat.succ_lt_succ h

theorem nodup_distinct (l : List α) : (distinct l).Nodup := by
  have h := nodup_distinctBy id l
  rwa [List.map_id] at h

theorem distinct_of_nodup (l : List α) (h : l.Nodup) : distinct l = l :=
  distinctBy_of_nodup id l (by rwa [List.map_id])

end TagCatalog
