import TagCatalog.Proofs.View.Bookmark

/-!
# Counting the Rows of a Request

The address of the rows tells what the address of their number is.

Whoever asks for the rows of a view asks for their number as well, under another
address. Both are made of the same view, but only the address of the rows is
compared with what was asked for last. This is enough if no two views have one
address for their rows and two for their number.

Nothing is known of the base, so an address cannot be taken apart from its front:
a base may end in what looks like a condition, or have parentheses and question
marks of its own. From the back it can. Names, values and options are free of
the three marks that hold an address together, so the last question mark, the
last closing parenthesis before it and the last opening one before that are
those that were written. What remains is the base with the clause behind it.
Where the one ends and the other begins is lost, but the address of the number
begins with the same text.

## Main definitions

* `Addressing.front`: The base with the clause of a filter behind it.

## Theorems

* `parts_unique`: What every address tells about its parts.
* `count?_eq_ok_iff`: When the address of the number can be written.
* `count?_of_rows?`: The address of the rows tells that of their number.
-/

namespace TagCatalog

open Text

theorem Options.written_versions (o : Options) : o.written.versions = o.versions := by
  unfold written
  split <;> rfl

namespace Addressing

/-- The base with the clause of a filter behind it. -/
def front (a : Addressing) (filter : Filter) : List Char :=
  a.base.toList ++ a.clauseText filter

/-- An address tells its front and the options that are written. -/
theorem parts_unique (a b : Addressing) (filter other : Filter) (columns columns' : List String)
    (sort sort' : List SortKey) (address : List Char)
    (h : a.address? filter columns sort = .ok address)
    (h' : b.address? other columns' sort' = .ok address) :
    a.front filter = b.front other ∧ a.options.written = b.options.written := by
  rcases (a.address?_eq_ok_iff filter columns sort address).mp h with ⟨_, _, hwhole⟩
  rcases (b.address?_eq_ok_iff other columns' sort' address).mp h' with ⟨_, _, hwhole'⟩
  rw [Options.tail_eq_fields] at hwhole hwhole'
  -- The last question mark is the one in front of the options.
  rcases append_cons_inj_of_not_mem '?' _ _ _ _ (hwhole.symm.trans hwhole')
    a.options.no_question_fields b.options.no_question_fields with ⟨hpath, hoptions⟩
  have hwritten : a.options.written = b.options.written := by
    rw [← Options.ofTail_fields, hoptions, Options.ofTail_fields]
  -- The last closing parenthesis is the one in front of the sort keys.
  have hsort : ∀ keys : List SortKey, ')' ∉ joinWith ',' (keys.map SortKey.item) := fun keys =>
    no_mark_sort keys ')' (by decide) (fun d => by cases d <;> decide) (by decide)
  rcases append_cons_inj_of_not_mem ')' _ _ _ _ hpath (hsort sort) (hsort sort') with ⟨hshown, _⟩
  -- And the last opening one is the one in front of the columns.
  have hcolumns : ∀ names : List String, '(' ∉ joinWith ';' (names.map escape) := fun names =>
    no_mark_columns names '(' (by decide) (by decide)
  rcases append_cons_inj_of_not_mem '(' _ _ _ _ hshown (hcolumns columns) (hcolumns columns') with
    ⟨hfront, _⟩
  exact ⟨hfront, hwritten⟩

end Addressing

namespace View

/-- The address of the number can be written if the conditions can. It begins
    with the front and ends with the versions. -/
theorem count?_eq_ok_iff (v : View) (a : Addressing) (count : String) :
    v.count? a = .ok count ↔
      (∀ c ∈ ((v.settings a).writtenPart v.filter).ungrouped, c.2.hasValidArity = true) ∧
      count.toList = (v.settings a).front v.filter ++ '(' :: escape idColumn ++ [')'] ++
        ({ versions := a.options.versions, range := some .count } : Options).tail := by
  have hcolumns : joinWith ';' ([idColumn].map escape) = escape idColumn := joinWith_singleton _ _
  rw [count?, range?, address?_eq_ok_iff, Addressing.address?_eq_ok_iff, hcolumns]
  exact and_iff_right (List.cons_ne_nil _ _)

/-- Views with one address for their rows have one address for the number of
    their rows. -/
theorem count?_of_rows? {v w : View} {a b : Addressing} {rows : String} (hv : v.rows? a = .ok rows)
    (hw : w.rows? b = .ok rows) : ∃ count, v.count? a = .ok count ∧ w.count? b = .ok count := by
  have hv := (address?_eq_ok_iff _ _ _ _ _).mp hv
  have hw := (address?_eq_ok_iff _ _ _ _ _).mp hw
  rcases Addressing.parts_unique _ _ _ _ _ _ _ _ _ hv hw with ⟨hfront, hwritten⟩
  have hversions : a.options.versions = b.options.versions := by
    have h := congrArg Options.versions hwritten
    rw [Options.written_versions, Options.written_versions] at h
    exact h
  -- Neither limit nor offset has a part in whether the conditions can be written.
  have harity := (((v.pageSettings a).address?_eq_ok_iff _ _ _ _).mp hv).2.1
  have harity' := (((w.pageSettings b).address?_eq_ok_iff _ _ _ _).mp hw).2.1
  have hsame : (v.settings a).front v.filter = (w.settings b).front w.filter := hfront
  refine ⟨String.ofList _, (count?_eq_ok_iff v a _).mpr ⟨harity, String.toList_ofList⟩,
    (count?_eq_ok_iff w b _).mpr ⟨harity', ?_⟩⟩
  rw [String.toList_ofList, hsame, hversions]

end View

end TagCatalog
