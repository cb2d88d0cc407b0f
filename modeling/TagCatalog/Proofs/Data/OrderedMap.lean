import Mathlib.Data.List.Nodup
import TagCatalog.Data.OrderedMap

/-!
# Entries of Ordered Maps

Which entries a map has after one of its keys was given a value, removed or
put at a position.

For whoever keeps a property of all values it is enough that no value appears
from nowhere. Each statement is therefore about one direction only: an entry
of the new map is the one that was given or one of another key of the old map.
That the key has no second entry is what a map without repeated keys is for.
Where the order matters, an update is told apart by whether the key is new.

Whoever cares for positions as well takes the entries apart at a key. A key with
a value stands between two lists of other keys, and how long the first one is
says where. A key that is put at a position is of that form by definition, so
one lemma for each operation on such a map covers both.

## Theorems

* `updateEntries_of_not_mem`: Computing the value of a new key.
* `updateEntries_append`: Computing the value of a key that came last.
* `erase_insert`, `erase_erase`: A key that was given a value or removed, and is
  removed again.
* `mem_updateEntries`: The entries after an update.
* `eq_of_mem`: A key has one entry.
* `mem_erase`, `mem_insert`, `mem_place`: The entries after a removal, an
  assignment and a placement.
* `mem_of_get?`, `get?_of_mem`: The value of a key is an entry.
* `exists_split`, `not_mem_of_split`: A key with a value stands between other keys.
* `position?_of_split`, `get?_of_split`, `entries_erase_of_split`,
  `entries_insert_of_split`: Where it stands, and what is there instead of it after
  a change.
* `get?_eq_none_iff`, `erase_of_get?_eq_none`: A key without a value.
* `get?_place`, `position?_place`, `erase_place`: A key that is put at a position.
* `eq_of_erase_eq`: A map is made up of a value, its place, and the rest.
* `ofList_entries`: A map is what its own entries leave behind.
-/

namespace TagCatalog

namespace OrderedMap

theorem key_ne_of_mem {κ ν : Type} {k : κ} {es : List (κ × ν)} (h : k ∉ es.map Prod.fst)
    {e : κ × ν} (he : e ∈ es) : e.1 ≠ k := fun hk => h (hk ▸ List.mem_map_of_mem he)

section Entries

variable {κ ν : Type} [DecidableEq κ]

theorem updateEntries_of_not_mem (k : κ) (f : Option ν → ν) (es : List (κ × ν))
    (h : k ∉ es.map Prod.fst) : updateEntries k f es = es ++ [(k, f none)] := by
  induction es with
  | nil => rfl
  | cons e r ih =>
    rw [List.map_cons, List.mem_cons, not_or] at h
    rw [updateEntries, if_neg fun he => h.1 he.symm, ih h.2, List.cons_append]

theorem updateEntries_append (k : κ) (f : Option ν → ν) (es : List (κ × ν)) (v : ν)
    (h : k ∉ es.map Prod.fst) : updateEntries k f (es ++ [(k, v)]) = es ++ [(k, f (some v))] := by
  induction es with
  | nil => rw [List.nil_append, updateEntries, if_pos rfl, List.nil_append]
  | cons e r ih =>
    rw [List.map_cons, List.mem_cons, not_or] at h
    rw [List.cons_append, updateEntries, if_neg fun he => h.1 he.symm, ih h.2, List.cons_append]

/-- An entry after an update is an old one or that of the key. -/
theorem mem_updateEntries (k : κ) (f : Option ν → ν) (es : List (κ × ν)) (e : κ × ν)
    (h : e ∈ updateEntries k f es) :
    e ∈ es ∨ e = (k, f none) ∨ ∃ v, (k, v) ∈ es ∧ e = (k, f (some v)) := by
  induction es with
  | nil => exact Or.inr (Or.inl (List.mem_singleton.mp h))
  | cons x r ih =>
    rcases x with ⟨j, v⟩
    by_cases hj : j = k
    · rw [updateEntries, if_pos hj, List.mem_cons] at h
      subst hj
      rcases h with rfl | h
      · exact Or.inr (Or.inr ⟨v, List.mem_cons_self, rfl⟩)
      · exact Or.inl (List.mem_cons_of_mem _ h)
    · rw [updateEntries, if_neg hj, List.mem_cons] at h
      rcases h with rfl | h
      · exact Or.inl List.mem_cons_self
      · rcases ih h with h | h | ⟨w, hw, h⟩
        · exact Or.inl (List.mem_cons_of_mem _ h)
        · exact Or.inr (Or.inl h)
        · exact Or.inr (Or.inr ⟨w, List.mem_cons_of_mem _ hw, h⟩)

theorem mem_updateEntries_self (k : κ) (f : Option ν → ν) (es : List (κ × ν)) :
    ∃ old, (k, f old) ∈ updateEntries k f es := by
  induction es with
  | nil => exact ⟨none, List.mem_cons_self⟩
  | cons e r ih =>
    rcases e with ⟨j, v⟩
    by_cases hj : j = k
    · exact ⟨some v, by rw [updateEntries, if_pos hj, hj]; exact List.mem_cons_self⟩
    · rcases ih with ⟨old, hold⟩
      exact ⟨old, by rw [updateEntries, if_neg hj]; exact List.mem_cons_of_mem _ hold⟩

/-- Removing a key makes up for all that was done to its value. -/
theorem eraseEntries_updateEntries (k : κ) (f : Option ν → ν) (es : List (κ × ν)) :
    eraseEntries k (updateEntries k f es) = eraseEntries k es := by
  unfold eraseEntries
  induction es with
  | nil => rw [updateEntries, List.filter_cons_of_neg (by simp)]
  | cons e r ih =>
    rcases e with ⟨j, v⟩
    by_cases hj : j = k
    · rw [updateEntries, if_pos hj, List.filter_cons_of_neg (by simp [hj]),
        List.filter_cons_of_neg (by simp [hj])]
    · rw [updateEntries, if_neg hj, List.filter_cons_of_pos (by simp [hj]),
        List.filter_cons_of_pos (by simp [hj]), ih]

theorem eraseEntries_of_not_mem (k : κ) (es : List (κ × ν)) (h : k ∉ es.map Prod.fst) :
    eraseEntries k es = es := by
  rw [eraseEntries, List.filter_eq_self]
  exact fun e he => decide_eq_true (key_ne_of_mem h he)

end Entries

variable {κ ν : Type}

/-- A key has one entry. -/
theorem eq_of_mem {m : OrderedMap κ ν} {e e' : κ × ν} (h : e ∈ m.entries) (h' : e' ∈ m.entries)
    (hk : e.1 = e'.1) : e = e' :=
  List.inj_on_of_nodup_map m.nodup h h' hk

/-- Around the entry of a key there is no other one. -/
theorem not_mem_of_split {m : OrderedMap κ ν} {k : κ} {v : ν} {front back : List (κ × ν)}
    (h : m.entries = front ++ (k, v) :: back) :
    k ∉ front.map Prod.fst ∧ k ∉ back.map Prod.fst := by
  have hnodup := m.nodup
  rw [h, List.map_append, List.map_cons, List.nodup_middle, List.nodup_cons, List.mem_append,
    not_or] at hnodup
  exact hnodup.1

variable [DecidableEq κ]

theorem erase_insert (m : OrderedMap κ ν) (k : κ) (v : ν) : (m.insert k v).erase k = m.erase k :=
  ext (eraseEntries_updateEntries k _ m.entries)

theorem erase_erase (m : OrderedMap κ ν) (k : κ) : (m.erase k).erase k = m.erase k := by
  refine ext ?_
  show eraseEntries k (eraseEntries k m.entries) = eraseEntries k m.entries
  rw [eraseEntries, eraseEntries, List.filter_filter]
  exact List.filter_congr fun e _ => Bool.and_self _

theorem mem_erase (m : OrderedMap κ ν) (k : κ) (e : κ × ν) :
    e ∈ (m.erase k).entries ↔ e ∈ m.entries ∧ e.1 ≠ k := by
  show e ∈ eraseEntries k m.entries ↔ _
  rw [eraseEntries, List.mem_filter, decide_eq_true_eq]

/-- An entry after an assignment is the one that was given or one of another
    key. -/
theorem mem_insert (m : OrderedMap κ ν) (k : κ) (v : ν) (e : κ × ν)
    (h : e ∈ (m.insert k v).entries) : e = (k, v) ∨ e ∈ (m.erase k).entries := by
  by_cases hk : e.1 = k
  · left
    rcases mem_updateEntries_self k (fun _ => v) m.entries with ⟨_, hgiven⟩
    exact eq_of_mem h hgiven hk
  · right
    rw [← erase_insert m k v]
    exact (mem_erase _ k e).mpr ⟨h, hk⟩

/-- An entry after a placement is the one that was placed or one of another
    key. -/
theorem mem_place (m : OrderedMap κ ν) (i : Nat) (k : κ) (v : ν) (e : κ × ν)
    (h : e ∈ (m.place i k v).entries) : e = (k, v) ∨ e ∈ (m.erase k).entries := by
  rcases List.mem_append.mp h with h | h
  · exact Or.inr (List.mem_of_mem_take h)
  · rcases List.mem_cons.mp h with h | h
    · exact Or.inl h
    · exact Or.inr (List.mem_of_mem_drop h)

theorem mem_of_get? (m : OrderedMap κ ν) (k : κ) (v : ν) (h : m.get? k = some v) :
    (k, v) ∈ m.entries := by
  rcases Option.map_eq_some_iff.mp h with ⟨⟨j, w⟩, hfind, rfl⟩
  have hfound := List.find?_some hfind
  rw [decide_eq_true_eq] at hfound
  rw [← hfound]
  exact List.mem_of_find?_eq_some hfind

section Places

variable {m : OrderedMap κ ν} {k : κ} {v : ν} {front back : List (κ × ν)}

theorem entries_erase_of_split (h : m.entries = front ++ (k, v) :: back) :
    (m.erase k).entries = front ++ back := by
  rcases not_mem_of_split h with ⟨hfront, hback⟩
  show eraseEntries k m.entries = front ++ back
  have hcons : eraseEntries k ((k, v) :: back) = back := by
    rw [eraseEntries, List.filter_cons_of_neg (by simp)]
    exact eraseEntries_of_not_mem k back hback
  rw [h, eraseEntries, List.filter_append]
  exact congrArg₂ (· ++ ·) (eraseEntries_of_not_mem k front hfront) hcons

theorem position?_of_split (h : m.entries = front ++ (k, v) :: back) :
    m.position? k = some front.length := by
  have hfront := (not_mem_of_split h).1
  rw [position?, h, List.findIdx?_append, List.findIdx?_eq_none_iff.mpr, List.findIdx?_cons]
  · simp
  · exact fun e he => decide_eq_false (key_ne_of_mem hfront he)

theorem get?_of_split (h : m.entries = front ++ (k, v) :: back) : m.get? k = some v := by
  have hfront := (not_mem_of_split h).1
  rw [get?, lookup, h, List.find?_append, List.find?_eq_none.mpr, List.find?_cons]
  · simp
  · exact fun e he hk => key_ne_of_mem hfront he (of_decide_eq_true hk)

theorem get?_of_mem (h : (k, v) ∈ m.entries) : m.get? k = some v := by
  rcases List.append_of_mem h with ⟨front, back, hsplit⟩
  exact get?_of_split hsplit

/-- A key with a value stands somewhere among the others. -/
theorem exists_split (h : m.get? k = some v) :
    ∃ front back, m.entries = front ++ (k, v) :: back :=
  List.append_of_mem (mem_of_get? m k v h)

theorem get?_eq_none_iff : m.get? k = none ↔ k ∉ m.keys := by
  rw [get?, lookup, Option.map_eq_none_iff, List.find?_eq_none, keys, List.mem_map, not_exists]
  refine forall_congr' fun e => ?_
  rw [decide_eq_true_eq, not_and]

theorem position?_eq_none (h : m.get? k = none) : m.position? k = none := by
  rw [position?, List.findIdx?_eq_none_iff]
  exact fun e he => decide_eq_false (key_ne_of_mem (get?_eq_none_iff.mp h) he)

theorem erase_of_get?_eq_none (h : m.get? k = none) : m.erase k = m :=
  ext (eraseEntries_of_not_mem k m.entries (get?_eq_none_iff.mp h))

theorem get?_erase (m : OrderedMap κ ν) (k : κ) : (m.erase k).get? k = none :=
  get?_eq_none_iff.mpr (not_mem_keys_eraseEntries k m.entries)

variable (m k v)

theorem entries_place (i : Nat) : (m.place i k v).entries =
    (m.erase k).entries.take i ++ (k, v) :: (m.erase k).entries.drop i := rfl

theorem get?_place (i : Nat) : (m.place i k v).get? k = some v :=
  get?_of_split (entries_place m k v i)

/-- Where a key is put: at the position, or at the end when there are too few
    other keys. -/
theorem position?_place (i : Nat) :
    (m.place i k v).position? k = some (min i (m.erase k).size) := by
  rw [position?_of_split (entries_place m k v i), List.length_take]
  rfl

theorem erase_place (i : Nat) : (m.place i k v).erase k = m.erase k :=
  ext ((entries_erase_of_split (entries_place m k v i)).trans (List.take_append_drop i _))

variable {m k v}

/-- No key stands behind more keys than there are others. -/
theorem le_size_erase {i : Nat} (h : m.position? k = some i) : i ≤ (m.erase k).size := by
  cases hget : m.get? k with
  | none =>
    rw [position?_eq_none hget] at h
    exact absurd h (Option.some_ne_none i).symm
  | some v =>
    rcases exists_split hget with ⟨front, back, hsplit⟩
    rw [position?_of_split hsplit, Option.some.injEq] at h
    show i ≤ (m.erase k).entries.length
    rw [entries_erase_of_split hsplit, List.length_append, ← h]
    exact Nat.le_add_right _ _

/-- A map is made up of the value of a key, the place of the key, and the rest. -/
theorem eq_of_erase_eq {m' : OrderedMap κ ν} (hget : m.get? k = m'.get? k)
    (hposition : m.position? k = m'.position? k) (herase : m.erase k = m'.erase k) : m = m' := by
  cases h : m.get? k with
  | none => rwa [erase_of_get?_eq_none h, erase_of_get?_eq_none (hget ▸ h)] at herase
  | some v =>
    rcases exists_split h with ⟨front, back, hsplit⟩
    rcases exists_split (hget ▸ h) with ⟨front', back', hsplit'⟩
    rw [position?_of_split hsplit, position?_of_split hsplit', Option.some.injEq] at hposition
    have hrest := congrArg entries herase
    rw [entries_erase_of_split hsplit, entries_erase_of_split hsplit'] at hrest
    rcases List.append_inj hrest hposition with ⟨hfront, hback⟩
    exact ext (by rw [hsplit, hsplit', hfront, hback])

/-- A key that has a value is given another one where it stands. -/
theorem entries_insert_of_split (h : m.entries = front ++ (k, v) :: back) (w : ν) :
    (m.insert k w).entries = front ++ (k, w) :: back := by
  have hfront := (not_mem_of_split h).1
  show updateEntries k (fun _ => w) m.entries = _
  rw [h]
  clear h
  induction front with
  | nil => rw [List.nil_append, updateEntries, if_pos rfl, List.nil_append]
  | cons e r ih =>
    rw [List.map_cons, List.mem_cons, not_or] at hfront
    rw [List.cons_append, updateEntries, if_neg fun he => hfront.1 he.symm, ih hfront.2,
      List.cons_append]

end Places

/-- New keys go to the end, one after the other. -/
theorem entries_foldl_insert {κ ν : Type} [DecidableEq κ] (m : OrderedMap κ ν) (es : List (κ × ν))
    (h : ((m.entries ++ es).map Prod.fst).Nodup) :
    (es.foldl (fun m e => m.insert e.1 e.2) m).entries = m.entries ++ es := by
  induction es generalizing m with
  | nil => rw [List.foldl_nil, List.append_nil]
  | cons e r ih =>
    have hnew : e.1 ∉ m.entries.map Prod.fst := by
      rw [List.map_append, List.map_cons, List.nodup_append] at h
      exact fun he => h.2.2 e.1 he e.1 List.mem_cons_self rfl
    have hentries : (m.insert e.1 e.2).entries = m.entries ++ [e] :=
      updateEntries_of_not_mem e.1 (fun _ => e.2) m.entries hnew
    have happend : m.entries ++ e :: r = m.entries ++ [e] ++ r := by simp
    rw [happend, ← hentries] at h
    rw [List.foldl_cons, ih _ h, hentries, happend]

/-- A map is what its own entries leave behind. -/
theorem ofList_entries {κ ν : Type} [DecidableEq κ] (m : OrderedMap κ ν) : ofList m.entries = m :=
  ext (entries_foldl_insert empty m.entries m.nodup)

end OrderedMap

end TagCatalog
