import TagCatalog.Proofs.Address.Item

/-!
# The Grammar of Items

Which texts the reader takes for a condition, and into which parts it takes them.

An item has one of three forms: a name, a name with the mark of absence behind it,
or a name with another mark and some values. Names and values are plain, that is,
free of all marks of the grammar, and this makes the forms exclude each other. Where
the name ends and which mark follows is decided by the text alone. So the order in
which the reader tries the marks does not matter, though some of them begin alike.

`conditionParts?_eq_some_iff` says that the reader accepts exactly these texts. All
other texts it takes for a name, which is for others to say.

## Main definitions

* `ItemForm`: The three forms of a condition.
* `ItemForm.WellFormed`: Names hold something, and names and values are plain.
* `ItemForm.text`: The text of a form.
* `ItemForm.parts`: What the reader takes it apart into.

## Theorems

* `operatorAtStart?_eq_some_iff`: The operator whose mark stands at the start.
* `operatorAtStart?_of_perm`: The order in which marks are tried does not matter.
* `conditionParts?_text`, `conditionParts?_eq_some_iff`: The reader accepts the texts of
  the forms.
* `text_injective`: A text has one form at most.
-/

namespace TagCatalog

open Text

/-- The operator whose mark stands at the start of a text. -/
theorem operatorAtStart?_eq_some_iff (cs r : List Char) (op : Operator) :
    operatorAtStart? cs = some (op, r) ↔ op ∈ markedOperators ∧ cs = op.mark ++ r := by
  constructor
  · intro h
    rcases List.exists_of_findSome?_eq_some h with ⟨found, hmem, hfound⟩
    rcases Option.map_eq_some_iff.mp hfound with ⟨_, hstrip, heq⟩
    rcases Prod.mk.inj heq with ⟨rfl, rfl⟩
    exact ⟨hmem, (stripStart?_eq_some_iff _ _ _).mp hstrip⟩
  · rintro ⟨hop, rfl⟩
    exact operatorAtStart?_mark op hop r

/-- No mark begins another one, so the order in which they are tried does not
    matter. -/
theorem operatorAtStart?_of_perm (ops : List Operator) (hops : ops.Perm markedOperators)
    (cs : List Char) :
    (ops.findSome? fun op => (stripStart? op.mark cs).map fun r => (op, r)) =
      operatorAtStart? cs := by
  cases h : ops.findSome? fun op => (stripStart? op.mark cs).map fun r => (op, r) with
  | some found =>
    rcases List.exists_of_findSome?_eq_some h with ⟨op, hmem, hfound⟩
    rcases Option.map_eq_some_iff.mp hfound with ⟨r, hstrip, rfl⟩
    exact ((operatorAtStart?_eq_some_iff cs r op).mpr
      ⟨hops.mem_iff.mp hmem, (stripStart?_eq_some_iff _ _ _).mp hstrip⟩).symm
  | none =>
    rw [List.findSome?_eq_none_iff] at h
    exact (List.findSome?_eq_none_iff.mpr fun op hop => h op (hops.mem_iff.mpr hop)).symm

/-- The three forms of a condition. -/
inductive ItemForm where
  | present (name : List Char)
  | absent (name : List Char)
  | valued (name : List Char) (op : Operator) (values : List (List Char))

namespace ItemForm

def name : ItemForm → List Char
  | present name | absent name | valued name _ _ => name

/-- The text of a form. -/
def text : ItemForm → List Char
  | present name => name
  | absent name => name ++ Operator.absent.mark
  | valued name op values => name ++ op.mark ++ joinWith ',' values

/-- What the reader takes a form apart into. -/
def parts : ItemForm → List Char × Option (Operator × List (List Char))
  | present name => (name, none)
  | absent name => (name, some (.absent, []))
  | valued name op values => (name, some (op, values))

/-- Names hold something and are plain. Of the other marks than that of absence each
    has one or more plain values behind it. -/
structure WellFormed (form : ItemForm) : Prop where
  named : form.name ≠ []
  plain : ∀ c ∈ form.name, isPlain c = true
  values : ∀ name op values, form = valued name op values → op.arity = .atLeastOne ∧
    values ≠ [] ∧ ∀ v ∈ values, ∀ c ∈ v, isPlain c = true

theorem marked_of_arity (op : Operator) (h : op.arity = .atLeastOne) : op ∈ markedOperators := by
  cases op
  case tagged | absent | unset | between => exact Arity.noConfusion h
  all_goals decide

/-- The reader takes the text of a form apart into its parts. -/
theorem conditionParts?_text {form : ItemForm} (h : form.WellFormed) :
    conditionParts? form.text = some form.parts := by
  cases form with
  | present name => exact conditionParts?_name name h.named h.plain
  | absent name =>
    have hmarked := conditionParts?_marked name .absent [] h.named h.plain (by decide) rfl
      fun v hv => absurd hv List.not_mem_nil
    rwa [joinWith, List.intercalate_nil, List.append_nil] at hmarked
  | valued name op values =>
    rcases h.values name op values rfl with ⟨harity, hne, hvalues⟩
    refine conditionParts?_marked name op values h.named h.plain
      (marked_of_arity op harity) ?_ hvalues
    rw [Operator.accepts, harity, Arity.accepts, decide_eq_true_eq]
    exact List.length_pos_iff.mpr hne

/-- A text has one form at most. -/
theorem text_injective {f g : ItemForm} (hf : f.WellFormed) (hg : g.WellFormed)
    (h : f.text = g.text) : f = g := by
  have hparts : f.parts = g.parts := by
    rw [← Option.some.injEq, ← conditionParts?_text hf, ← conditionParts?_text hg, h]
  -- The forms differ in their parts, since no operator with values marks absence.
  cases f <;> cases g <;> simp only [parts, Prod.mk.injEq, Option.some.injEq, reduceCtorEq,
    and_false, and_true] at hparts
  case present.present => rw [hparts]
  case absent.absent => rw [hparts]
  case valued.valued => rw [hparts.1, hparts.2.1, hparts.2.2]
  case absent.valued name op values =>
    rw [← hparts.2.1] at hg
    exact Arity.noConfusion (hg.values _ _ _ rfl).1
  case valued.absent name op values _ =>
    rw [hparts.2.1] at hf
    exact Arity.noConfusion (hf.values _ _ _ rfl).1

theorem arity_of_marked (op : Operator) (hop : op ∈ markedOperators) (hzero : op.arity ≠ .zero) :
    op.arity = .atLeastOne := by
  cases op
  case tagged | between | unset => exact absurd hop (by decide)
  case absent => exact absurd rfl hzero
  all_goals rfl

theorem eq_absent_of_marked (op : Operator) (hop : op ∈ markedOperators)
    (hzero : op.arity = .zero) : op = .absent := by
  cases op
  case absent => rfl
  case tagged | unset => exact absurd hop (by decide)
  all_goals exact Arity.noConfusion hzero

-- What follows a name, once the mark behind it is known.
theorem exists_form_of_mark (name r : List Char) (op : Operator) (hne : name ≠ [])
    (hplain : ∀ c ∈ name, isPlain c = true) (hop : op ∈ markedOperators)
    (parts : List Char × Option (Operator × List (List Char)))
    (h : (if op.arity = .zero then if r.isEmpty then some (name, some (op, [])) else none
      else if (splitOn ',' r).all (·.all isPlain) then some (name, some (op, splitOn ',' r))
        else none) = some parts) :
    ∃ form : ItemForm, form.WellFormed ∧ form.text = name ++ op.mark ++ r ∧ form.parts = parts := by
  split at h
  · -- Only absence has a mark and no values.
    next hzero =>
    rcases eq_absent_of_marked op hop hzero with rfl
    split at h
    · next hr =>
      rw [List.isEmpty_iff.mp hr, List.append_nil]
      exact ⟨.absent name, ⟨hne, hplain, fun _ _ _ heq => ItemForm.noConfusion heq⟩, rfl,
        Option.some.inj h⟩
    · exact absurd h.symm (Option.some_ne_none _)
  · next hzero =>
    split at h
    · next hvalues =>
      refine ⟨.valued name op (splitOn ',' r), ⟨hne, hplain, ?_⟩, ?_, Option.some.inj h⟩
      · rintro _ _ _ ⟨⟩
        refine ⟨arity_of_marked op hop hzero, splitOn_ne_nil ',' r, fun v hv => ?_⟩
        exact List.all_eq_true.mp (List.all_eq_true.mp hvalues v hv)
      · rw [text, joinWith_splitOn]
    · exact absurd h.symm (Option.some_ne_none _)

/-- The reader accepts the texts of the forms, and no others. -/
theorem conditionParts?_eq_some_iff (item : List Char)
    (parts : List Char × Option (Operator × List (List Char))) :
    conditionParts? item = some parts ↔
      ∃ form : ItemForm, form.WellFormed ∧ form.text = item ∧ form.parts = parts := by
  refine ⟨fun h => ?_, fun ⟨form, hform, htext, hparts⟩ => ?_⟩
  · have hplain : ∀ c ∈ item.takeWhile isPlain, isPlain c = true := fun c hc =>
      List.mem_takeWhile_imp hc
    have hitem := List.takeWhile_append_dropWhile (p := isPlain) (l := item)
    unfold conditionParts? at h
    simp only at h
    split at h
    · exact absurd h.symm (Option.some_ne_none _)
    · next hname =>
      have hne : item.takeWhile isPlain ≠ [] := fun hnil => hname (List.isEmpty_iff.mpr hnil)
      split at h
      · -- The name is the whole item.
        next hrest =>
        rw [List.isEmpty_iff.mp hrest, List.append_nil] at hitem
        exact ⟨.present _, ⟨hne, hplain, fun _ _ _ heq => ItemForm.noConfusion heq⟩, hitem,
          Option.some.inj h⟩
      · split at h
        · exact absurd h.symm (Option.some_ne_none _)
        · next op r hop =>
          rcases (operatorAtStart?_eq_some_iff _ r op).mp hop with ⟨hmarked, hr⟩
          rw [hr, ← List.append_assoc] at hitem
          rcases exists_form_of_mark _ r op hne hplain hmarked parts h with
            ⟨form, hform, htext, hparts⟩
          exact ⟨form, hform, htext.trans hitem, hparts⟩
  · rw [← htext, ← hparts]
    exact conditionParts?_text hform

end ItemForm

end TagCatalog
