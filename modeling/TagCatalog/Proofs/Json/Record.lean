import Mathlib.Data.List.Forall2
import Mathlib.Data.List.Nodup
import Mathlib.Data.Option.Basic
import TagCatalog.Json.Record
import TagCatalog.Json.Value
import TagCatalog.Proofs.Json.Document

/-!
# Reading Back Records

A record that was written as an object is read as its fields.

The writer and the reader of a record name its fields independently of each other, and they
agree where the same name stands for the same field. The names of an object are different, so
a field is found exactly once or, where the writer leaves it out, not at all. `record?_document`
says this for any fields: each is either a member or may be missing.

## Main definitions

* `Value.HasField`: A field of a record among the members of an object.

## Theorems

* `namedField?_of_mem`, `namedField?_of_not_mem`: A field that is there, and one that is not.
* `record?_document`: A written record is read as its fields.
* `list?_document`, `texts?_document`, `members?_document`: Lists, texts and objects whose
  names are values themselves.
-/

namespace TagCatalog

namespace Json

theorem mapM_eq_some {α β : Type} {f : α → Option β} {g : α → β} {xs : List α}
    (h : ∀ x ∈ xs, f x = some (g x)) : xs.mapM f = some (xs.map g) := by
  induction xs with
  | nil => rfl
  | cons x r ih =>
    rw [List.mapM_cons, h x List.mem_cons_self, ih fun y hy => h y (List.mem_cons_of_mem x hy)]
    rfl

namespace Document

variable {members : List (Option String × Document)} {name : String}

/-- A name that stands once is found once. -/
theorem namedField?_of_mem (hnames : (members.map Prod.fst).Nodup) {d : Document}
    (h : (some name, d) ∈ members) (p : Presence) : namedField? members name p = some (some d) := by
  have hfilter : (members.filter fun m => m.1 = some name) = [(some name, d)] := by
    rcases List.append_of_mem h with ⟨front, back, rfl⟩
    rw [List.map_append, List.map_cons, List.nodup_append] at hnames
    have hfront : (front.filter fun m => m.1 = some name) = [] := by
      rw [List.filter_eq_nil_iff]
      intro m hm heq
      exact hnames.2.2 m.1 (List.mem_map_of_mem hm) _ List.mem_cons_self (of_decide_eq_true heq)
    have hback : (back.filter fun m => m.1 = some name) = [] := by
      rw [List.filter_eq_nil_iff]
      intro m hm heq
      have hmem : m.1 ∈ back.map Prod.fst := List.mem_map_of_mem hm
      rw [of_decide_eq_true heq] at hmem
      exact (List.nodup_cons.mp hnames.2.1).1 hmem
    rw [List.filter_append, hfront, List.filter_cons_of_pos (by simp), hback, List.nil_append]
  rw [namedField?, hfilter]

theorem namedField?_of_not_mem (h : some name ∉ members.map Prod.fst) {p : Presence}
    (hp : p ≠ .required) : namedField? members name p = some none := by
  have hfilter : (members.filter fun m => m.1 = some name) = [] := by
    rw [List.filter_eq_nil_iff]
    intro m hm heq
    have hmem : m.1 ∈ members.map Prod.fst := List.mem_map_of_mem hm
    rw [of_decide_eq_true heq] at hmem
    exact h hmem
  rw [namedField?, hfilter, if_neg hp]

end Document

open Document

namespace Value

/-- A field of a record among its members: it is one of them, or it may be missing. -/
def HasField (members : List (String × Value)) (field : String × Presence) : Option Value → Prop
  | some v => (field.1, v) ∈ members
  | none => field.1 ∉ members.map Prod.fst ∧ field.2 ≠ .required

/-- A written record is read as its fields. -/
theorem record?_document {members : List (String × Value)} {fields : List (String × Presence)}
    (values : List (Option Value)) (hnames : (members.map Prod.fst).Nodup)
    (h : List.Forall₂ (HasField members) fields values) :
    (document (.object members)).record? fields = some (values.map (Option.map document)) := by
  rw [document_object]
  have hwritten : names? (members.map fun m => (some m.1, document m.2)) =
      some (members.map Prod.fst) := by
    rw [names?, List.mapM_map]
    exact mapM_eq_some fun m _ => rfl
  have hkeys : (members.map fun m => (some m.1, document m.2)).map Prod.fst =
      (members.map Prod.fst).map some := by
    rw [List.map_map, List.map_map]
    rfl
  have hdistinct : ((members.map fun m => (some m.1, document m.2)).map Prod.fst).Nodup := by
    rw [hkeys]
    exact List.Nodup.map (Option.some_injective String) hnames
  rw [record?, hwritten, if_pos Option.isSome_some]
  -- The fields are looked up one after the other.
  induction h with
  | nil => rfl
  | @cons field v fields values hfield _ ih =>
    have hread : namedField? (members.map fun m => (some m.1, document m.2)) field.1 field.2 =
        some (v.map document) := by
      cases v with
      | some v => exact namedField?_of_mem hdistinct (List.mem_map.mpr ⟨_, hfield, rfl⟩) field.2
      | none =>
        refine namedField?_of_not_mem ?_ hfield.2
        rw [hkeys, List.mem_map_of_injective (Option.some_injective String)]
        exact hfield.1
    refine List.mapM_cons.trans ?_
    rw [ih]
    exact congrArg (fun d => d.bind fun d => some (d :: values.map (Option.map document))) hread

/-- A written list is read item by item. -/
theorem list?_document {α : Type} {item : Document → Option α} {write : α → Value} {xs : List α}
    (h : ∀ x ∈ xs, item (write x).document = some x) :
    (document (.array (xs.map write))).list? item = some xs := by
  have hread : xs.mapM (fun x => item (write x).document) = some (xs.map id) := mapM_eq_some h
  rw [List.map_id] at hread
  rw [document_array, list?, List.mapM_map, List.mapM_map]
  exact hread

theorem texts?_document (texts : List String) :
    (ofTexts texts).document.list? text? = some texts :=
  list?_document fun _ _ => rfl

/-- A written object whose names are values themselves is read member by member. -/
theorem members?_document {α : Type} {member : Document → Option α} (write : α → Value)
    {entries : List (String × α)} (h : ∀ e ∈ entries, member (write e.2).document = some e.2) :
    (document (.object (entries.map fun e => (e.1, write e.2)))).members? member =
      some entries := by
  rw [document_object, members?, List.mapM_map, List.mapM_map]
  refine (mapM_eq_some (g := id) fun e he => ?_).trans (congrArg some (List.map_id entries))
  show (member (write e.2).document).bind (fun a => some (e.1, a)) = some e
  rw [h e he, Option.bind_some]

end Value

end Json

end TagCatalog
