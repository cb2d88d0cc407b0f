/-!
# Ordered Maps

A finite map that remembers the order in which its keys first came.

A map is a list of entries in which no key stands twice; the order of the list
is the order of the keys. Giving a key a new value leaves it where it is, a new
key goes to the end, and removing a key leaves the order of the others.

## Main definitions

* `OrderedMap`: Entries without a repeated key.
* `OrderedMap.get?`: The value of a key.
* `OrderedMap.insert`: Give a key a value.
* `OrderedMap.update`: Compute the new value of a key from its old one.
* `OrderedMap.erase`: Remove a key.
* `OrderedMap.place`: Put a key at a position.
* `OrderedMap.ofList`: The map that a list of assignments leaves behind.

## Theorems

* `keys_updateEntries`: What an assignment does to the keys.
* `keys_eraseEntries`: What a removal does to the keys.
-/

namespace TagCatalog

/-- Entries without a repeated key, in the order of the keys. -/
structure OrderedMap (κ ν : Type) where
  entries : List (κ × ν)
  nodup : (entries.map Prod.fst).Nodup

namespace OrderedMap

section Entries

variable {κ ν : Type} [DecidableEq κ]

/-- Compute the value of a key in a list of entries. -/
def updateEntries (k : κ) (f : Option ν → ν) : List (κ × ν) → List (κ × ν)
  | [] => [(k, f none)]
  | (j, v) :: r => if j = k then (j, f (some v)) :: r else (j, v) :: updateEntries k f r

theorem keys_updateEntries (k : κ) (f : Option ν → ν) (es : List (κ × ν)) :
    (updateEntries k f es).map Prod.fst =
      if k ∈ es.map Prod.fst then es.map Prod.fst else es.map Prod.fst ++ [k] := by
  induction es with
  | nil => simp [updateEntries]
  | cons e r ih =>
    obtain ⟨j, v⟩ := e
    by_cases h : j = k
    · simp [updateEntries, h]
    · have h' : ¬ k = j := fun e => h e.symm
      simp only [updateEntries, h, if_false, List.map_cons, ih, List.mem_cons, h', false_or]
      split <;> rfl

/-- The value of a key in a list of entries. -/
def lookup (k : κ) (es : List (κ × ν)) : Option ν :=
  (es.find? fun e => e.1 = k).map Prod.snd

/-- A list of entries without a key. -/
def eraseEntries (k : κ) (es : List (κ × ν)) : List (κ × ν) :=
  es.filter fun e => e.1 ≠ k

theorem keys_eraseEntries (k : κ) (es : List (κ × ν)) :
    (eraseEntries k es).map Prod.fst = (es.map Prod.fst).filter (· ≠ k) := by
  simp [eraseEntries, List.filter_map, Function.comp_def]

theorem nodup_eraseEntries (k : κ) {es : List (κ × ν)} (h : (es.map Prod.fst).Nodup) :
    ((eraseEntries k es).map Prod.fst).Nodup := by
  rw [keys_eraseEntries]
  exact h.filter _

theorem not_mem_keys_eraseEntries (k : κ) (es : List (κ × ν)) :
    k ∉ (eraseEntries k es).map Prod.fst := by
  rw [keys_eraseEntries]
  simp

end Entries

variable {κ ν : Type}

instance [DecidableEq κ] [DecidableEq ν] : DecidableEq (OrderedMap κ ν) := fun a b =>
  decidable_of_iff (a.entries = b.entries) <| by
    constructor
    · intro h
      cases a
      cases b
      simp_all
    · exact fun h => h ▸ rfl

/-- Two maps with the same entries are the same. -/
theorem ext {a b : OrderedMap κ ν} (h : a.entries = b.entries) : a = b := by
  cases a
  cases b
  simp_all

/-- The map without keys. -/
def empty : OrderedMap κ ν := ⟨[], by simp⟩

instance : Inhabited (OrderedMap κ ν) := ⟨empty⟩

/-- The keys in order. -/
def keys (m : OrderedMap κ ν) : List κ := m.entries.map Prod.fst

/-- The number of keys. -/
def size (m : OrderedMap κ ν) : Nat := m.entries.length

/-- Whether the map has no key. -/
def isEmpty (m : OrderedMap κ ν) : Bool := m.entries.isEmpty

variable [DecidableEq κ]

/-- The value of a key. -/
def get? (m : OrderedMap κ ν) (k : κ) : Option ν := lookup k m.entries

/-- Whether a key has a value. -/
def contains (m : OrderedMap κ ν) (k : κ) : Bool := m.entries.any fun e => e.1 = k

/-- The position of a key. -/
def position? (m : OrderedMap κ ν) (k : κ) : Option Nat :=
  m.entries.findIdx? fun e => e.1 = k

/-- Compute the new value of a key from its old one. -/
def update (m : OrderedMap κ ν) (k : κ) (f : Option ν → ν) : OrderedMap κ ν where
  entries := updateEntries k f m.entries
  nodup := by
    have h := m.nodup
    rw [keys_updateEntries]
    split
    · exact h
    · rename_i hk
      simp only [List.nodup_append, h, true_and]
      refine ⟨by simp, fun a ha b hb => ?_⟩
      rw [List.mem_singleton] at hb
      exact fun e => hk (hb ▸ e ▸ ha)

/-- Give a key a value. -/
def insert (m : OrderedMap κ ν) (k : κ) (v : ν) : OrderedMap κ ν :=
  m.update k fun _ => v

/-- Remove a key. -/
def erase (m : OrderedMap κ ν) (k : κ) : OrderedMap κ ν :=
  ⟨eraseEntries k m.entries, nodup_eraseEntries k m.nodup⟩

/-- Put a key with a value at a position among the other keys, or at the end
    when there are too few. -/
def place (m : OrderedMap κ ν) (i : Nat) (k : κ) (v : ν) : OrderedMap κ ν where
  entries := (eraseEntries k m.entries).take i ++ (k, v) :: (eraseEntries k m.entries).drop i
  nodup := by
    have hn : ((eraseEntries k m.entries).map Prod.fst).Nodup := nodup_eraseEntries k m.nodup
    have hk := not_mem_keys_eraseEntries k m.entries
    generalize eraseEntries k m.entries = es at hn hk ⊢
    rw [List.map_append, List.map_cons, List.perm_middle.nodup_iff, List.nodup_cons,
      ← List.map_append, List.take_append_drop]
    exact ⟨hk, hn⟩

/-- The map that a list of assignments leaves behind. -/
def ofList (es : List (κ × ν)) : OrderedMap κ ν :=
  es.foldl (fun m e => m.insert e.1 e.2) empty

end OrderedMap

end TagCatalog
