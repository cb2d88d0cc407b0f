import Mathlib.Data.List.Induction
import TagCatalog.Proofs.Data.Distinct
import TagCatalog.Proofs.Data.OrderedMap

/-!
# Gathering by Key

Pairs of a key and a value become an ordered map from keys to lists of values,
one pair at a time: each value goes to the end of the list of its key. This is
how the items of an address become a filter.

The other way round, a map of lists is written out as pairs, key by key. The
two undo each other on maps without an empty list, which is
`gather_ungrouped`. An empty list is the only thing that writing out can lose,
since no pair speaks of it.

`mem_gather` bounds what gathering can produce. No list comes out empty, and no
value appears that was not given, under the key it was given with.

## Main definitions

* `mapValues`: A map with other values.
* `ungrouped`: The pairs of a map of lists.
* `push`: One more value of a key.
* `gather`: The map of lists that pairs leave behind.

## Theorems

* `ungrouped_mapValues`, `mapValues_eq_iff`: Changing every value.
* `foldl_push_new`: Gathering the values of one key.
* `gather_ungrouped`: Pairs that were written out are gathered back.
* `mem_gather`: The lists that gathering produces.
* `entries_gather`: What is gathered, in which order.
* `ungrouped_gather`: Writing out what was gathered.
-/

namespace TagCatalog

namespace OrderedMap

/-- A map with other values under the same keys. -/
def mapValues {κ ν μ : Type} (f : κ → ν → μ) (m : OrderedMap κ ν) : OrderedMap κ μ where
  entries := m.entries.map fun e => (e.1, f e.1 e.2)
  nodup := by
    rw [List.map_map]
    exact m.nodup

/-- The pairs of a map of lists, key by key. -/
def ungrouped {κ ν : Type} (m : OrderedMap κ (List ν)) : List (κ × ν) :=
  m.entries.flatMap fun e => e.2.map fun v => (e.1, v)

theorem map_eq_iff {α : Type} (f : α → α) (l : List α) : l.map f = l ↔ ∀ x ∈ l, f x = x := by
  have h := List.map_inj_left (f := f) (g := id) (l := l)
  rwa [List.map_id] at h

theorem mem_ungrouped {κ ν : Type} (m : OrderedMap κ (List ν)) (p : κ × ν) :
    p ∈ m.ungrouped ↔ ∃ vs, (p.1, vs) ∈ m.entries ∧ p.2 ∈ vs := by
  unfold ungrouped
  rw [List.mem_flatMap]
  constructor
  · rintro ⟨e, he, hp⟩
    rcases List.mem_map.mp hp with ⟨v, hv, rfl⟩
    exact ⟨e.2, he, hv⟩
  · rintro ⟨vs, he, hp⟩
    exact ⟨_, he, List.mem_map.mpr ⟨p.2, hp, rfl⟩⟩

/-- The pairs of a map whose lists are changed value by value. -/
theorem ungrouped_mapValues {κ ν μ : Type} (f : κ → ν → μ) (m : OrderedMap κ (List ν)) :
    (m.mapValues fun k vs => vs.map (f k)).ungrouped =
      m.ungrouped.map fun p => (p.1, f p.1 p.2) := by
  simp only [ungrouped, mapValues, List.flatMap_map, List.map_flatMap, List.map_map,
    Function.comp_def]

/-- Changing the lists of a map value by value changes nothing exactly when it
    changes no value. -/
theorem mapValues_eq_iff {κ ν : Type} (f : κ → ν → ν) (m : OrderedMap κ (List ν)) :
    (m.mapValues fun k vs => vs.map (f k)) = m ↔ ∀ e ∈ m.entries, ∀ v ∈ e.2, f e.1 v = v := by
  have hmap : (m.mapValues fun k vs => vs.map (f k)) = m ↔
      (m.entries.map fun e => (e.1, e.2.map (f e.1))) = m.entries :=
    ⟨fun h => congrArg entries h, fun h => ext h⟩
  rw [hmap, map_eq_iff]
  refine forall₂_congr fun e _ => ?_
  rw [← map_eq_iff]
  exact ⟨congrArg Prod.snd, fun h => Prod.ext rfl h⟩

variable {κ ν : Type} [DecidableEq κ]

/-- Give a key one more value, behind those that it has. -/
def push (m : OrderedMap κ (List ν)) (p : κ × ν) : OrderedMap κ (List ν) :=
  m.update p.1 fun vs => vs.getD [] ++ [p.2]

theorem entries_push (m : OrderedMap κ (List ν)) (p : κ × ν) :
    (m.push p).entries = updateEntries p.1 (fun vs => vs.getD [] ++ [p.2]) m.entries := rfl

/-- The map of lists that pairs leave behind. -/
def gather (ps : List (κ × ν)) : OrderedMap κ (List ν) :=
  ps.foldl push empty

/-- Further values of the last key go to the end of its list. -/
theorem foldl_push_last (k : κ) (ws vs : List ν) (es : List (κ × List ν))
    (m : OrderedMap κ (List ν)) (hm : m.entries = es ++ [(k, vs)]) (hk : k ∉ es.map Prod.fst) :
    ((ws.map fun w => (k, w)).foldl push m).entries = es ++ [(k, vs ++ ws)] := by
  -- The list of the key grows with each value, so it has to be general.
  induction ws generalizing vs m with
  | nil => rw [List.map_nil, List.foldl_nil, hm, List.append_nil]
  | cons w ws ih =>
    have hpush : (m.push (k, w)).entries = es ++ [(k, vs ++ [w])] := by
      rw [entries_push, hm, updateEntries_append k _ es vs hk, Option.getD_some]
    rw [List.map_cons, List.foldl_cons, ih _ _ hpush, List.append_assoc, List.singleton_append]

/-- The values of a new key are gathered into one entry at the end. -/
theorem foldl_push_new (k : κ) (vs : List ν) (hvs : vs ≠ []) (m : OrderedMap κ (List ν))
    (hk : k ∉ m.entries.map Prod.fst) :
    ((vs.map fun v => (k, v)).foldl push m).entries = m.entries ++ [(k, vs)] := by
  cases vs with
  | nil => exact absurd rfl hvs
  | cons v vs =>
    have hpush : (m.push (k, v)).entries = m.entries ++ [(k, [v])] := by
      rw [entries_push, updateEntries_of_not_mem k _ m.entries hk, Option.getD_none,
        List.nil_append]
    rw [List.map_cons, List.foldl_cons, foldl_push_last k vs [v] m.entries _ hpush hk,
      List.singleton_append]

/-- Pairs that were written out are gathered behind what is already there. -/
theorem foldl_push_entries (es : List (κ × List ν)) (hes : ∀ e ∈ es, e.2 ≠ [])
    (m : OrderedMap κ (List ν)) (hnodup : ((m.entries ++ es).map Prod.fst).Nodup) :
    ((es.flatMap fun e => e.2.map fun v => (e.1, v)).foldl push m).entries = m.entries ++ es := by
  induction es generalizing m with
  | nil => rw [List.flatMap_nil, List.foldl_nil, List.append_nil]
  | cons e es ih =>
    rcases e with ⟨k, vs⟩
    -- The key is new, so its values make an entry of their own.
    have hk : k ∉ m.entries.map Prod.fst := by
      rw [List.map_append, List.nodup_append] at hnodup
      exact fun h => hnodup.2.2 k h k List.mem_cons_self rfl
    have hnew := foldl_push_new k vs (hes _ List.mem_cons_self) m hk
    have hrest := ih (fun x hx => hes x (List.mem_cons_of_mem _ hx))
      ((vs.map fun v => (k, v)).foldl push m)
      (by rw [hnew, List.append_assoc]; exact hnodup)
    rw [List.flatMap_cons, List.foldl_append, hrest, hnew, List.append_assoc, List.singleton_append]

/-- Pairs that were written out for a map without an empty list are gathered
    into that map. -/
theorem gather_ungrouped (m : OrderedMap κ (List ν)) (h : ∀ e ∈ m.entries, e.2 ≠ []) :
    gather m.ungrouped = m :=
  ext (foldl_push_entries m.entries h empty m.nodup)

/-- What holds of pairs and of the entries of a map holds after one more pair
    is gathered. -/
theorem mem_push (ps : List (κ × ν)) (m : OrderedMap κ (List ν)) (p : κ × ν) (hp : p ∈ ps)
    (h : ∀ e ∈ m.entries, e.2 ≠ [] ∧ ∀ v ∈ e.2, (e.1, v) ∈ ps) :
    ∀ e ∈ (m.push p).entries, e.2 ≠ [] ∧ ∀ v ∈ e.2, (e.1, v) ∈ ps := by
  intro e he
  rcases mem_updateEntries _ _ _ e he with he | rfl | ⟨vs, hvs, rfl⟩
  · exact h e he
  · refine ⟨List.cons_ne_nil _ _, fun v hv => ?_⟩
    rw [Option.getD_none, List.nil_append, List.mem_singleton] at hv
    rw [hv]
    exact hp
  · refine ⟨List.append_ne_nil_of_right_ne_nil _ (List.cons_ne_nil _ _), fun v hv => ?_⟩
    rw [Option.getD_some, List.mem_append, List.mem_singleton] at hv
    rcases hv with hv | rfl
    · exact (h _ hvs).2 v hv
    · exact hp

theorem mem_foldl_push (ps qs : List (κ × ν)) (hqs : ∀ q ∈ qs, q ∈ ps) (m : OrderedMap κ (List ν))
    (h : ∀ e ∈ m.entries, e.2 ≠ [] ∧ ∀ v ∈ e.2, (e.1, v) ∈ ps) :
    ∀ e ∈ (qs.foldl push m).entries, e.2 ≠ [] ∧ ∀ v ∈ e.2, (e.1, v) ∈ ps := by
  induction qs generalizing m with
  | nil => exact h
  | cons q qs ih =>
    rw [List.foldl_cons]
    exact ih (fun x hx => hqs x (List.mem_cons_of_mem _ hx)) _
      (mem_push ps m q (hqs q List.mem_cons_self) h)

/-- No list that is gathered is empty, and each of its values was given with
    its key. -/
theorem mem_gather (ps : List (κ × ν)) (e : κ × List ν) (he : e ∈ (gather ps).entries) :
    e.2 ≠ [] ∧ ∀ v ∈ e.2, (e.1, v) ∈ ps :=
  mem_foldl_push ps ps (fun _ hq => hq) empty (fun _ hx => absurd hx List.not_mem_nil) e he

theorem gather_concat (ps : List (κ × ν)) (p : κ × ν) :
    gather (ps ++ [p]) = (gather ps).push p := by
  rw [gather, List.foldl_concat, gather]

/-- Computing the value of one of the keys that a list of entries was made from. -/
theorem updateEntries_map (k : κ) (f : Option ν → ν) (g : κ → ν) (ks : List κ) (hk : k ∈ ks)
    (hnodup : ks.Nodup) : updateEntries k f (ks.map fun j => (j, g j)) =
      ks.map fun j => (j, if j = k then f (some (g j)) else g j) := by
  induction ks with
  | nil => exact absurd hk List.not_mem_nil
  | cons j js ih =>
    rw [List.nodup_cons] at hnodup
    rw [List.map_cons, updateEntries, List.map_cons]
    by_cases hj : j = k
    · rw [if_pos hj, if_pos hj, hj]
      -- The key does not come again.
      refine congrArg _ (List.map_congr_left fun i hi => ?_)
      rw [if_neg]
      rintro rfl
      exact hnodup.1 (hj ▸ hi)
    · rw [if_neg hj, if_neg hj, ih ((List.mem_cons.mp hk).resolve_left (Ne.symm hj)) hnodup.2]

/-- Pairs are gathered stably: keys stand in the order in which they first occur,
    and the values of a key in the order in which they occur. -/
theorem entries_gather (ps : List (κ × ν)) :
    (gather ps).entries = (distinct (ps.map Prod.fst)).map fun k =>
      (k, (ps.filter fun p => p.1 = k).map Prod.snd) := by
  induction ps using List.reverseRecOn with
  | nil => rfl
  | append_singleton ps p ih =>
    rw [gather_concat, entries_push, ih, List.map_append, List.map_singleton, distinct_concat]
    have hvalues : ∀ k, ((ps ++ [p]).filter fun q => q.1 = k).map Prod.snd =
        (ps.filter fun q => q.1 = k).map Prod.snd ++ if k = p.1 then [p.2] else [] := by
      intro k
      rw [List.filter_append, List.map_append]
      by_cases hk : k = p.1
      · rw [if_pos hk, List.filter_cons_of_pos (by simp [hk]), List.filter_nil, List.map_singleton]
      · rw [if_neg hk, List.filter_cons_of_neg (by simp [Ne.symm hk]), List.filter_nil,
          List.map_nil]
    by_cases hmem : p.1 ∈ ps.map Prod.fst
    · -- The value goes behind those that its key has.
      rw [if_pos hmem, updateEntries_map p.1 _ _ _ ((mem_distinct _ _).mpr hmem) (nodup_distinct _)]
      refine List.map_congr_left fun k _ => ?_
      rw [hvalues k]
      by_cases hk : k = p.1
      · rw [if_pos hk, if_pos hk, Option.getD_some]
      · rw [if_neg hk, if_neg hk, List.append_nil]
    · -- The key is new, and no pair before has it.
      have hkeys : p.1 ∉ ((distinct (ps.map Prod.fst)).map fun k =>
          (k, (ps.filter fun q => q.1 = k).map Prod.snd)).map Prod.fst := by
        rw [List.map_map,
          show (Prod.fst ∘ fun k => (k, (ps.filter fun q => q.1 = k).map Prod.snd)) =
            id from rfl, List.map_id, mem_distinct]
        exact hmem
      rw [if_neg hmem, updateEntries_of_not_mem _ _ _ hkeys, List.map_append, List.map_singleton]
      refine congrArg₂ _ (List.map_congr_left fun k hk => ?_) ?_
      · have hne : k ≠ p.1 := fun h => hmem (h ▸ (mem_distinct _ k).mp hk)
        rw [hvalues k, if_neg hne, List.append_nil]
      · have hnone : ps.filter (fun q => q.1 = p.1) = [] :=
          List.filter_eq_nil_iff.mpr fun q hq h =>
            hmem (of_decide_eq_true h ▸ List.mem_map_of_mem hq)
        rw [hvalues p.1, if_pos rfl, hnone, List.map_nil, Option.getD_none]

/-- No pair is lost, and none is made up. -/
theorem ungrouped_gather (ps : List (κ × ν)) : (gather ps).ungrouped.Perm ps := by
  induction ps using List.reverseRecOn with
  | nil => exact List.Perm.nil
  | append_singleton ps p ih =>
    rw [gather_concat]
    refine List.Perm.trans ?_ (ih.append_right [p])
    unfold ungrouped
    rw [entries_push]
    generalize (gather ps).entries = es
    induction es with
    | nil => exact List.Perm.refl _
    | cons e es ih =>
      rcases e with ⟨k, vs⟩
      rw [updateEntries]
      by_cases hk : k = p.1
      · -- The pair comes behind those of its key, and the other keys behind it.
        rw [if_pos hk, List.flatMap_cons, List.flatMap_cons, Option.getD_some, List.map_append,
          List.map_singleton, List.append_assoc, List.append_assoc, hk]
        exact (List.perm_append_comm).append_left _
      · rw [if_neg hk, List.flatMap_cons, List.flatMap_cons, List.append_assoc]
        exact ih.append_left _

end OrderedMap

end TagCatalog
