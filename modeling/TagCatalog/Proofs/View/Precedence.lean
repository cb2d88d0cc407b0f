import Mathlib.Data.Set.Function
import Mathlib.Logic.Function.Basic
import Mathlib.Order.Interval.Set.Defs
import TagCatalog.Proofs.View.Invariant

/-!
# Precedence of Sort Keys

Which place a tag has among the sort keys, and what actions make of it.

A precedence is stored nowhere. It is the position of a key in the list, counted from
one, and so each action that touches the list numbers the keys anew. That the numbers
have no gap is clear; that no tag has two of them is the part of `View.Sound` that says
the keys are on different columns.

With it a precedence is an entry of the list of names, `sortPrecedence?_eq_some_iff`, and
the three things that can happen to a key are the three things that can happen to an
entry. A direction for a sorted tag leaves the names alone, a direction for another one
puts a name at the end, and a key that goes away is cut out at its index. Cutting it out
moves the names behind it by one place, which is `closeGap`.

No other action but those that show another view touches the list at all.

## Main definitions

* `View.direction?`: The direction in which a tag is sorted.
* `View.IsContiguous`: The precedences of a view are the numbers from one on.
* `closeGap`: A precedence after the key of another one is gone.
* `Action.KeepsSort`: Actions that leave the sort keys alone.

## Theorems

* `sortPrecedence?_eq_some_iff`: Precedences are the indices of names.
* `isContiguous_of_sound`: Each number up to that of the keys is one precedence.
* `direction?_withDirection`, `direction?_without`: Directions when a tag is given one and
  when a key goes away.
* `sortPrecedence?_withDirection`, `sortPrecedence?_withDirection_new`: Precedences when a
  tag is given a direction.
* `sortPrecedence?_without`: Precedences when a key goes away.
* `sort_after`: Actions that leave the sort keys alone.
* `precedence_contiguous`: Precedences stay contiguous, and who moves.
-/

namespace TagCatalog

/-- A precedence after the key with the precedence `k` is gone. -/
def closeGap (k j : Nat) : Nat := if k < j then j - 1 else j

/-- Actions that neither show another view nor sort by other keys. -/
def Action.KeepsSort : Action → Prop
  | replace _ | addColumns _ .replaceAll | removeColumn _ | setSort _ _ => False
  | _ => True

namespace View

/-- The direction in which a tag is sorted, if it is. -/
def direction? (v : View) (tag : String) : Option Direction :=
  (v.sort.find? fun key => key.name = tag).map SortKey.direction

/-- The precedences are the numbers from one to that of the sort keys, and each of them
    belongs to one tag. -/
structure IsContiguous (v : View) : Prop where
  bijective : Set.BijOn v.sortPrecedence? {tag | tag ∈ v.sort.map SortKey.name}
    (Set.image some (Set.Icc 1 v.sort.length))
  unsorted : ∀ tag, tag ∉ v.sort.map SortKey.name → v.sortPrecedence? tag = none

theorem sortPrecedence?_eq_none_iff (v : View) (tag : String) :
    v.sortPrecedence? tag = none ↔ tag ∉ v.sort.map SortKey.name := by
  simp [sortPrecedence?, List.findIdx?_eq_none_iff]

/-- Precedences are the indices of names, because no name stands there twice. -/
theorem sortPrecedence?_eq_some_iff {v : View} (hv : (v.sort.map SortKey.name).Nodup) (tag : String)
    (k : Nat) :
    v.sortPrecedence? tag = some k ↔ ∃ i, (v.sort.map SortKey.name)[i]? = some tag ∧ k = i + 1 := by
  rw [sortPrecedence?, Option.map_eq_some_iff]
  refine exists_congr fun i => and_congr ?_ eq_comm
  rw [List.findIdx?_eq_some_iff_getElem, List.getElem?_eq_some_iff]
  constructor
  · rintro ⟨hi, hname, _⟩
    exact ⟨by simpa using hi, by simpa using hname⟩
  · rintro ⟨hi, hname⟩
    rw [List.getElem_map] at hname
    refine ⟨by simpa using hi, by simpa using hname, fun j hj hsame => ?_⟩
    -- An earlier key on the same column would be the same entry of the names.
    have hj' : j < (v.sort.map SortKey.name).length := hj.trans hi
    have heq : (v.sort.map SortKey.name)[j] = (v.sort.map SortKey.name)[i] := by
      rw [List.getElem_map, List.getElem_map, hname]
      simpa using hsame
    exact absurd ((List.Nodup.getElem_inj_iff hv).mp heq) (by omega)

theorem isContiguous_of_sound {v : View} (hv : v.Sound) : v.IsContiguous where
  bijective := by
    refine ⟨fun tag htag => ?_, fun t _ u hu heq => ?_, ?_⟩
    · rcases List.mem_iff_getElem?.mp htag with ⟨i, hi⟩
      have hlt : i < v.sort.length := by
        simpa using (List.getElem?_eq_some_iff.mp hi).1
      exact ⟨i + 1, ⟨by omega, by omega⟩,
        ((sortPrecedence?_eq_some_iff hv.sort tag _).mpr ⟨i, hi, rfl⟩).symm⟩
    · -- One index holds one name.
      rcases List.mem_iff_getElem?.mp hu with ⟨i, hi⟩
      have hprec := (sortPrecedence?_eq_some_iff hv.sort u (i + 1)).mpr ⟨i, hi, rfl⟩
      rcases (sortPrecedence?_eq_some_iff hv.sort t (i + 1)).mp (heq.trans hprec) with ⟨j, hj, hij⟩
      obtain rfl : i = j := by omega
      exact Option.some.inj (hj.symm.trans hi)
    · rintro _ ⟨k, ⟨hone, hle⟩, rfl⟩
      have hlt : k - 1 < (v.sort.map SortKey.name).length := by
        rw [List.length_map]
        omega
      refine ⟨(v.sort.map SortKey.name)[k - 1], List.getElem_mem hlt, ?_⟩
      exact (sortPrecedence?_eq_some_iff hv.sort _ _).mpr
        ⟨k - 1, List.getElem?_eq_getElem hlt, by omega⟩
  unsorted := fun tag => (v.sortPrecedence?_eq_none_iff tag).mpr

section Directions

variable (v : View) (tag : String)

/-- Only the names matter for precedences. -/
theorem sortPrecedence?_congr {v w : View} (h : w.sort.map SortKey.name = v.sort.map SortKey.name) :
    w.sortPrecedence? = v.sortPrecedence? := by
  have hnames : ∀ u : View, u.sortPrecedence? = fun t =>
      ((u.sort.map SortKey.name).findIdx? fun name => name = t).map (· + 1) := by
    intro u
    funext t
    rw [sortPrecedence?, List.findIdx?_map]
    rfl
  rw [hnames, hnames, h]

/-- The first key on a tag when another key, or the same one, is given a direction. -/
theorem find?_withDirection (d : Direction) (sort : List SortKey) (t : String) :
    (withDirection tag d sort).find? (fun key => key.name = t) =
      if t = tag then some ⟨tag, d⟩ else sort.find? fun key => key.name = t := by
  induction sort with
  | nil =>
    by_cases ht : t = tag
    · simp [withDirection, ht]
    · simp [withDirection, ht, Ne.symm ht]
  | cons key r ih =>
    by_cases hkey : key.name = tag
    · by_cases ht : t = tag
      · simp [withDirection, hkey, ht]
      · simp [withDirection, hkey, ht, Ne.symm ht]
    · rw [withDirection, if_neg hkey, List.find?_cons, List.find?_cons, ih]
      by_cases ht : t = tag
      · simp [ht, hkey]
      · simp [ht]

theorem direction?_congr {v w : View} (h : w.sort = v.sort) : w.direction? = v.direction? := by
  funext t
  rw [direction?, direction?, h]

theorem direction?_withDirection (d : Direction) :
    ({ v with sort := withDirection tag d v.sort } : View).direction? =
      Function.update v.direction? tag (some d) := by
  funext t
  by_cases ht : t = tag
  · rw [ht, Function.update_self, direction?, find?_withDirection, if_pos rfl, Option.map_some]
  · rw [Function.update_of_ne ht, direction?, find?_withDirection, if_neg ht, direction?]

theorem direction?_without :
    ({ v with sort := v.sort.filter fun key => key.name ≠ tag } : View).direction? =
      Function.update v.direction? tag none := by
  funext t
  rw [direction?, List.find?_filter]
  by_cases ht : t = tag
  · rw [ht, Function.update_self, Option.map_eq_none_iff, List.find?_eq_none]
    simp
  · rw [Function.update_of_ne ht, direction?]
    congr 2
    funext key
    -- A key on another column was kept.
    have hother : key.name = t → key.name ≠ tag := fun hname => hname ▸ ht
    simpa using hother

end Directions

section Precedences

variable {v : View} {tag : String}

/-- A sorted tag keeps its place, and so do the others. -/
theorem sortPrecedence?_withDirection (d : Direction) (hmem : tag ∈ v.sort.map SortKey.name) :
    ({ v with sort := withDirection tag d v.sort } : View).sortPrecedence? = v.sortPrecedence? := by
  refine sortPrecedence?_congr ?_
  rw [map_name_withDirection, if_pos hmem]

/-- Another tag comes behind the sorted ones. -/
theorem sortPrecedence?_withDirection_new (hv : v.Sound) (d : Direction) (htag : tag ∈ v.columns)
    (hnew : tag ∉ v.sort.map SortKey.name) :
    ({ v with sort := withDirection tag d v.sort } : View).sortPrecedence? =
      Function.update v.sortPrecedence? tag (some (v.sort.length + 1)) := by
  have hnames := map_name_withDirection tag d v.sort
  rw [if_neg hnew] at hnames
  have hprec := sortPrecedence?_eq_some_iff (hv.sortBy tag d htag).sort
  simp only [hnames] at hprec
  funext t
  by_cases ht : t = tag
  · rw [ht, Function.update_self, hprec]
    refine ⟨v.sort.length, ?_, rfl⟩
    rw [← List.length_map SortKey.name, List.getElem?_concat_length]
  · rw [Function.update_of_ne ht]
    ext k
    rw [hprec, sortPrecedence?_eq_some_iff hv.sort]
    refine exists_congr fun i => and_congr_left' ?_
    -- The last name is another one.
    rw [List.getElem?_append]
    split
    · rfl
    · next hi =>
      rw [List.getElem?_eq_none (Nat.le_of_not_lt hi)]
      simp [List.getElem?_singleton, Ne.symm ht]

/-- The names when the one at an index goes away. -/
theorem map_name_without (hv : v.Sound) {i : Nat}
    (hi : (v.sort.map SortKey.name)[i]? = some tag) :
    (v.sort.filter fun key => key.name ≠ tag).map SortKey.name =
      (v.sort.map SortKey.name).eraseIdx i := by
  rcases List.getElem?_eq_some_iff.mp hi with ⟨hlt, rfl⟩
  rw [← hv.sort.erase_getElem i hlt, hv.sort.erase_eq_filter, List.filter_map]
  congr 2
  funext key
  rw [decide_not]
  rfl

/-- The keys behind the one that goes away move up by one place. -/
theorem sortPrecedence?_without (hv : v.Sound) {k : Nat} (hk : v.sortPrecedence? tag = some k) :
    ({ v with sort := v.sort.filter fun key => key.name ≠ tag } : View).sortPrecedence? =
      Function.update (fun t => (v.sortPrecedence? t).map (closeGap k)) tag none := by
  rcases (sortPrecedence?_eq_some_iff hv.sort tag k).mp hk with ⟨i, hi, rfl⟩
  have hnames := map_name_without hv hi
  funext t
  by_cases ht : t = tag
  · rw [ht, Function.update_self, sortPrecedence?_eq_none_iff]
    simp
  · rw [Function.update_of_ne ht]
    cases hm : v.sortPrecedence? t with
    | none =>
      rw [Option.map_none, sortPrecedence?_eq_none_iff]
      intro hmem
      rw [hnames] at hmem
      exact (v.sortPrecedence?_eq_none_iff t).mp hm (List.mem_of_mem_eraseIdx hmem)
    | some m =>
      rcases (sortPrecedence?_eq_some_iff hv.sort t m).mp hm with ⟨j, hj, rfl⟩
      -- The name that was cut out is another one, so it was not at this index.
      have hne : j ≠ i := fun h => ht (Option.some.inj (hj.symm.trans (h ▸ hi)))
      have hsound : (({ v with sort := v.sort.filter fun key => key.name ≠ tag } : View).sort.map
          SortKey.name).Nodup := hv.sort.sublist (List.filter_sublist.map SortKey.name)
      rw [Option.map_some, sortPrecedence?_eq_some_iff hsound]
      simp only [hnames, List.getElem?_eraseIdx]
      rcases Nat.lt_or_gt_of_ne hne with hlt | hgt
      · refine ⟨j, by rw [if_pos hlt, hj], ?_⟩
        rw [closeGap, if_neg (by omega)]
      · refine ⟨j - 1, ?_, ?_⟩
        · rw [if_neg (by omega), Nat.sub_add_cancel (by omega), hj]
        · rw [closeGap, if_pos (by omega)]
          omega

end Precedences

/-- Actions that leave the sort keys alone, whether they fail or not. -/
theorem sort_after (v : View) (action : Action) (h : action.KeepsSort) :
    (v.after action).sort = v.sort := by
  cases action with
  | setFilter tag ps =>
    show (v.setFilter tag ps).sort = v.sort
    unfold setFilter
    split <;> rfl
  | addColumns tags policy =>
    cases policy with
    | prepend => rfl
    | replaceAll => exact absurd h id
  | reorderColumns source target =>
    rw [after_reorderColumns]
    unfold reorderColumns
    split
    · rfl
    · split <;> rfl
  | beginEdit tag =>
    show (v.beginEdit tag).1.sort = v.sort
    unfold beginEdit
    split <;> rfl
  | saveEdit schema =>
    rw [after_saveEdit]
    cases hsave : v.saveEdit schema with
    | error e => rfl
    | ok w =>
      rcases (saveEdit_eq_ok_iff v w schema).mp hsave with ⟨edit, _, _, rfl⟩
      show (v.setFilter edit.tag _).sort = v.sort
      unfold setFilter
      split <;> rfl
  | cancelEdit =>
    show v.cancelEdit.1.sort = v.sort
    unfold cancelEdit
    split <;> rfl
  | replace | removeColumn | setSort => exact absurd h id
  | clearFilter | clearAllFilters | setPage | nextPage | previousPage | setPageSize => rfl

/-- In a view that can be brought about the precedences of the sorted tags are the numbers
    from one on, each once. A sorted tag that is given a direction moves no key, a shown
    tag that was not sorted comes behind all keys, and the keys behind one that goes away,
    with or without its column, move up by one. Directions change for the tag alone, and
    the rest of the view stays, all of it for a tag that is not shown. No other action
    moves a key, except for those that show another view. -/
theorem precedence_contiguous {v : View} (hv : v.Reachable) :
    v.IsContiguous ∧
    (∀ tag ∈ v.sort.map SortKey.name, ∀ d, ∃ w, v.setSort tag (some d) = (w, true) ∧
      w = { v with sort := w.sort } ∧ w.sortPrecedence? = v.sortPrecedence? ∧
      w.direction? = Function.update v.direction? tag (some d)) ∧
    (∀ tag ∈ v.columns, tag ∉ v.sort.map SortKey.name → ∀ d, ∃ w,
      v.setSort tag (some d) = (w, true) ∧ w = { v with sort := w.sort } ∧
      w.sortPrecedence? = Function.update v.sortPrecedence? tag (some (v.sort.length + 1)) ∧
      w.direction? = Function.update v.direction? tag (some d)) ∧
    (∀ tag k, v.sortPrecedence? tag = some k → ∃ sort,
      v.setSort tag none = ({ v with sort }, true) ∧
      v.removeColumn tag = ({ v with columns := v.columns.erase tag, sort }, true) ∧
      ∀ w : View, w.sort = sort →
        w.sortPrecedence? =
            Function.update (fun t => (v.sortPrecedence? t).map (closeGap k)) tag none ∧
          w.direction? = Function.update v.direction? tag none) ∧
    (∀ tag ∉ v.columns, (∀ change, v.setSort tag change = (v, false)) ∧
      v.removeColumn tag = (v, false)) ∧
    ∀ action : Action, action.KeepsSort →
      (v.after action).sort = v.sort ∧ (v.after action).sortPrecedence? = v.sortPrecedence? := by
  have hsound := hv.sound
  have hshown : ∀ tag ∈ v.sort.map SortKey.name, tag ∈ v.columns := by
    intro tag htag
    rcases List.mem_map.mp htag with ⟨key, hkey, rfl⟩
    exact hsound.shown key hkey
  refine ⟨isContiguous_of_sound hsound, fun tag htag d => ?_, fun tag htag hnew d => ?_,
    fun tag k hk => ?_, fun tag htag => ?_, fun action haction => ?_⟩
  · refine ⟨_, ?_, rfl, sortPrecedence?_withDirection d htag, direction?_withDirection v tag d⟩
    rw [setSort, if_pos (List.contains_iff_mem.mpr (hshown tag htag))]
  · refine ⟨_, ?_, rfl, sortPrecedence?_withDirection_new hsound d htag hnew,
      direction?_withDirection v tag d⟩
    rw [setSort, if_pos (List.contains_iff_mem.mpr htag)]
  · -- Only a shown column has a precedence.
    have hsorted : tag ∈ v.sort.map SortKey.name := by
      by_contra hnot
      exact nomatch hk.symm.trans ((v.sortPrecedence?_eq_none_iff tag).mpr hnot)
    have hcolumn : v.columns.contains tag = true := List.contains_iff_mem.mpr (hshown tag hsorted)
    refine ⟨v.sort.filter fun key => key.name ≠ tag, ?_, ?_, fun w hw => ⟨?_, ?_⟩⟩
    · rw [setSort, if_pos hcolumn]
    · rw [removeColumn, if_pos hcolumn]
    · rw [← sortPrecedence?_without hsound hk]
      exact sortPrecedence?_congr (by rw [hw])
    · rw [← direction?_without]
      exact direction?_congr hw
  · have hcolumn : ¬ v.columns.contains tag = true := fun h => htag (List.contains_iff_mem.mp h)
    refine ⟨fun change => ?_, ?_⟩
    · unfold setSort
      rw [if_neg hcolumn]
    · rw [removeColumn, if_neg hcolumn]
  · have hsort := sort_after v action haction
    exact ⟨hsort, sortPrecedence?_congr (by rw [hsort])⟩

/-- Of three sort keys the first goes away, and the other two move up. -/
theorem precedence_contiguous_three :
    let v := (View.new ⟨10, by decide⟩).run [.addColumns ["a", "b", "c"] .prepend,
      .setSort "c" (some .asc), .setSort "a" (some .desc),
      .setSort "b" (some .asc)]
    v.Reachable ∧ v.sortPrecedence? "c" = some 1 ∧
      (v.removeColumn "c").1.sortPrecedence? "a" = some 1 ∧
      (v.removeColumn "c").1.sortPrecedence? "b" = some 2 ∧
      (v.removeColumn "c").1.direction? "a" = some .desc := by
  intro v
  have hv : v.Reachable := .new _ _
  have hprec : v.sortPrecedence? "c" = some 1 := by decide
  rcases (precedence_contiguous hv).2.2.2.1 "c" 1 hprec with ⟨sort, _, hremove, hkept⟩
  rcases hkept (v.removeColumn "c").1 (by rw [hremove]) with ⟨hw, hd⟩
  rw [hw, hd]
  exact ⟨hv, hprec, by decide, by decide, by decide⟩

end View

end TagCatalog
