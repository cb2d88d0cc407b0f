import TagCatalog.Address.Reader
import TagCatalog.Address.Writer
import TagCatalog.Proofs.Text.Percent
import TagCatalog.Proofs.Text.Split

/-!
# Reading One Item

A condition that was written is taken apart into the parts it was written
from: its tag, the operator whose mark stands behind the tag, and its values.
The same is shown for sort keys.

An interval is written under the mark of equality, as one value. So what a
condition is written from is again a condition, `Predicate.written`, in which
an interval has become an equality and each value carries the suffix. With it
every item has one form, a name, a mark and values between commas, and
`condition_item` reads that form for all operators at once. What an equality
is then taken for, a list of values or an interval, is left to
`Reading.predicate`.

The rest is about characters. The marks of the grammar are exactly the
characters that are not plain, a written name is plain throughout, and no mark
of an operator begins another one.

## Main definitions

* `Predicate.written`: What a condition is written from.
* `Addressing.reading`: The reading that goes with some settings.
* `Reading.ofWritten`: What a written condition is read as.

## Theorems

* `isPlain_of_mem_escape`: A written name has no mark of the grammar.
* `operatorAtStart?_mark`: The mark of an operator is read as the operator.
* `written_cases`: The operators that are written.
* `item_eq_written`: The one form of all items.
* `conditionParts?_name`, `conditionParts?_marked`: An item is taken apart.
* `condition_item`: A written condition is read.
* `not_mem_mark`, `not_mem_item`: Characters that no mark of an operator and no
  item has.
* `ofItem_item`: A written sort key is read as itself.
-/

namespace TagCatalog

open Text Percent

/-- The reading that goes with some settings: the same schema and zone. -/
def Addressing.reading (a : Addressing) : Reading := ⟨a.schema, a.zone⟩

theorem isPlain_of_kept (c : Char) (h : Percent.keptInName c = true ∨ c = '%') :
    isPlain c = true := by
  have hmarks :
      (";,()=:!?&".toList.all fun m => !(Percent.keptInName m || m = '%')) = true := by rfl
  rw [List.all_eq_true] at hmarks
  unfold isPlain
  rw [Bool.not_eq_true', List.contains_eq_mem, decide_eq_false_iff_not]
  intro hc
  have hmark := hmarks c hc
  rw [Bool.not_eq_true', Bool.or_eq_false_iff, decide_eq_false_iff_not] at hmark
  rcases h with h | h
  · rw [h] at hmark
    exact Bool.noConfusion hmark.1
  · exact hmark.2 h

/-- A written name has no mark of the grammar. -/
theorem isPlain_of_mem_escape (s : String) (c : Char) (h : c ∈ escape s) : isPlain c = true :=
  isPlain_of_kept c (mem_encode holdsDigits_name h)

/-- The marks of operators are words between colons, but for a few signs. -/
theorem not_mem_mark (op : Operator) (c : Char) (hname : Percent.keptInName c = false)
    (hsign : c ∉ ":=!".toList) : c ∉ op.mark := by
  have hmarks : op.mark.all (fun x => Percent.keptInName x || ":=!".toList.contains x) = true := by
    cases op <;> decide
  intro hc
  have hkept := List.all_eq_true.mp hmarks c hc
  rw [hname, Bool.false_or, List.contains_iff_mem] at hkept
  exact hsign hkept

/-- The mark of an operator is read as the operator, whatever follows it: no
    mark begins another one. -/
theorem operatorAtStart?_mark (op : Operator) (hop : op ∈ markedOperators) (r : List Char) :
    operatorAtStart? (op.mark ++ r) = some (op, r) := by
  cases op
  case tagged | between | unset => exact absurd hop (by decide)
  all_goals rfl

/-- A mark begins with a character that is not plain. -/
theorem mark_eq_cons (op : Operator) (hop : op ∈ markedOperators) :
    ∃ m ms, op.mark = m :: ms ∧ isPlain m = false := by
  cases op
  case tagged | between | unset => exact absurd hop (by decide)
  all_goals exact ⟨_, _, rfl, by decide⟩

/-- A name alone. -/
theorem conditionParts?_name (name : List Char) (hne : name ≠ [])
    (hname : ∀ c ∈ name, isPlain c = true) : conditionParts? name = some (name, none) := by
  have htake : name.takeWhile isPlain = name := by
    rw [← List.append_nil name, List.takeWhile_append_of_pos hname, List.takeWhile_nil,
      List.append_nil]
  have hdrop : name.dropWhile isPlain = [] := by
    rw [← List.append_nil name, List.dropWhile_append_of_pos hname, List.dropWhile_nil]
  unfold conditionParts?
  simp only [htake, hdrop, List.isEmpty_eq_false_iff.mpr hne, List.isEmpty_nil, if_true,
    Bool.false_eq_true, if_false]

/-- A name with a mark behind it: the operator of the mark, and the values that
    the operator takes. -/
theorem conditionParts?_marked (name : List Char) (op : Operator) (values : List (List Char))
    (hne : name ≠ []) (hname : ∀ c ∈ name, isPlain c = true) (hop : op ∈ markedOperators)
    (hcount : op.accepts values.length = true) (hvalues : ∀ v ∈ values, ∀ c ∈ v, isPlain c = true) :
    conditionParts? (name ++ op.mark ++ joinWith ',' values) = some (name, some (op, values)) := by
  rcases mark_eq_cons op hop with ⟨m, ms, hm, hplain⟩
  have happ : name ++ op.mark ++ joinWith ',' values =
      name ++ m :: (ms ++ joinWith ',' values) := by
    rw [hm, List.append_assoc, List.cons_append]
  have htake := takeWhile_append_cons isPlain name (ms ++ joinWith ',' values) m hname hplain
  have hdrop := dropWhile_append_cons isPlain name (ms ++ joinWith ',' values) m hname hplain
  have hrest : m :: (ms ++ joinWith ',' values) = op.mark ++ joinWith ',' values := by
    rw [hm, List.cons_append]
  have hread := operatorAtStart?_mark op hop (joinWith ',' values)
  unfold conditionParts?
  rw [happ]
  simp only [htake, hdrop, List.isEmpty_eq_false_iff.mpr hne, List.isEmpty_cons,
    Bool.false_eq_true, if_false]
  simp only [hrest, hread]
  unfold Operator.accepts at hcount
  by_cases hzero : op.arity = .zero
  · rw [hzero, Arity.accepts, decide_eq_true_eq, List.length_eq_zero_iff] at hcount
    rw [if_pos hzero, hcount]
    rfl
  · -- Every other operator takes a value, so there is one before the first comma.
    have hsome : values ≠ [] := by
      rintro rfl
      cases harity : op.arity with
      | zero => exact hzero harity
      | pair | atLeastOne =>
        rw [harity] at hcount
        exact absurd hcount (by decide)
    have hsplit : splitOn ',' (joinWith ',' values) = values := by
      refine splitOn_joinWith ',' values hsome fun v hv hc => ?_
      exact absurd (hvalues v hv ',' hc) (by decide)
    rw [if_neg hzero, hsplit, if_pos]
    rw [List.all_eq_true]
    exact fun v hv => List.all_eq_true.mpr (hvalues v hv)

namespace Predicate

/-- What a condition is written from: an interval has become a value under
    equality, and each value carries the suffix. -/
def written (suffix : String) : Predicate → Predicate
  | ⟨.between, [low, high]⟩ => ⟨.eq, ["(" ++ low ++ suffix ++ "," ++ high ++ suffix ++ ")"]⟩
  | ⟨op, values⟩ => ⟨op, values.map fun v => v ++ suffix⟩

theorem written_between (suffix low high : String) :
    (between low high).written suffix =
      ⟨.eq, ["(" ++ low ++ suffix ++ "," ++ high ++ suffix ++ ")"]⟩ := rfl

theorem written_of_ne_between (suffix : String) (p : Predicate) (h : p.op ≠ .between) :
    p.written suffix = ⟨p.op, p.values.map fun v => v ++ suffix⟩ := by
  unfold written
  split
  · exact absurd rfl h
  · rfl

theorem between_inj (low high low' high' : String) :
    between low high = between low' high' ↔ low = low' ∧ high = high' := by
  simp only [between, Predicate.mk.injEq, List.cons.injEq, and_true, true_and]

/-- A condition on an interval with the right number of values. -/
theorem eq_between (p : Predicate) (hop : p.op = .between) (hp : p.hasValidArity = true) :
    ∃ low high, p = between low high := by
  rcases p with ⟨op, values⟩
  simp only at hop
  subst hop
  -- Only two values are the right number.
  rcases values with _ | ⟨low, _ | ⟨high, _ | ⟨v, vs⟩⟩⟩
  · exact absurd hp (by decide)
  · exact Bool.noConfusion hp
  · exact ⟨low, high, rfl⟩
  · simp [hasValidArity, Operator.accepts, Operator.arity, Arity.accepts] at hp

theorem written_op_ne_between (suffix : String) (p : Predicate) (hp : p.hasValidArity = true) :
    (p.written suffix).op ≠ .between := by
  by_cases hop : p.op = .between
  · rcases eq_between p hop hp with ⟨low, high, rfl⟩
    rw [written_between]
    exact fun h => Operator.noConfusion h
  · rw [written_of_ne_between suffix p hop]
    exact hop

theorem written_isUnset (suffix : String) (p : Predicate) :
    (p.written suffix).isUnset = p.isUnset := by
  unfold written
  split <;> rfl

theorem written_hasValidArity (suffix : String) (p : Predicate) (hp : p.hasValidArity = true) :
    (p.written suffix).hasValidArity = true := by
  by_cases hop : p.op = .between
  · rcases eq_between p hop hp with ⟨low, high, rfl⟩
    rfl
  · rw [written_of_ne_between suffix p hop]
    unfold hasValidArity at hp ⊢
    rw [List.length_map]
    exact hp

/-- What a chosen condition is written from is presence, which has neither a mark
    nor values, or has an operator with a mark. -/
theorem written_cases (suffix : String) (p : Predicate) (hset : p.isUnset = false)
    (hp : p.hasValidArity = true) :
    p.written suffix = ⟨.tagged, []⟩ ∨ (p.written suffix).op ∈ markedOperators := by
  -- Of what the item is written from, only these three facts are needed.
  have hset' := written_isUnset suffix p
  have hp' := written_hasValidArity suffix p hp
  have hop' := written_op_ne_between suffix p hp
  rw [hset] at hset'
  generalize p.written suffix = q at hset' hp' hop'
  rcases q with ⟨op, values⟩
  by_cases htagged : op = .tagged
  · subst htagged
    have hvalues : values = [] := by
      simpa [hasValidArity, Operator.accepts, Operator.arity, Arity.accepts] using hp'
    rw [hvalues]
    exact Or.inl rfl
  · refine Or.inr (show op ∈ markedOperators from ?_)
    cases op
    case tagged => exact absurd rfl htagged
    case between => exact absurd rfl hop'
    case unset => exact Bool.noConfusion hset'
    all_goals decide

/-- Every item is a name, the mark of an operator, and values with a comma
    between each two. -/
theorem item_eq_written (suffix tag : String) (p : Predicate) :
    p.item suffix tag = escape tag ++ (p.written suffix).op.mark ++
      joinWith ',' ((p.written suffix).values.map escape) := by
  by_cases hop : ∃ low high, p = between low high
  · rcases hop with ⟨low, high, rfl⟩
    simp only [item, between, written, List.map_cons, List.map_nil, joinWith,
      List.intercalate_singleton, List.append_assoc]
    rfl
  · have hwritten : p.written suffix = ⟨p.op, p.values.map fun v => v ++ suffix⟩ := by
      unfold written
      split
      · exact absurd ⟨_, _, rfl⟩ hop
      · rfl
    -- Both sides write the values one by one.
    rw [hwritten, List.map_map]
    unfold item
    split
    · exact absurd ⟨_, _, rfl⟩ hop
    · rfl

/-- Presence is written as the name alone. -/
theorem text_tagged (tag : String) :
    escape tag ++ Operator.tagged.mark ++ joinWith ',' ([].map escape) = escape tag := by
  rw [show Operator.tagged.mark = [] from rfl, List.append_nil, List.map_nil, joinWith,
    List.intercalate_nil, List.append_nil]

end Predicate

/-- What a condition is read as that was written with a suffix. -/
def Reading.ofWritten (r : Reading) (suffix tag : String) (p : Predicate) : Predicate :=
  r.predicate tag (p.written suffix).op (p.written suffix).values

/-- A written condition is read as its tag with the condition that its
    operator and values stand for. -/
theorem condition_item (r : Reading) (suffix tag : String) (p : Predicate) (htag : tag ≠ "")
    (hset : p.isUnset = false) (hp : p.hasValidArity = true) :
    r.condition (p.item suffix tag) =
      (tag, r.predicate tag (p.written suffix).op (p.written suffix).values) := by
  have hp' := Predicate.written_hasValidArity suffix p hp
  have hcases := Predicate.written_cases suffix p hset hp
  have hne : escape tag ≠ [] := fun h => htag ((escape_eq_nil_iff tag).mp h)
  have hname : ∀ c ∈ escape tag, isPlain c = true := isPlain_of_mem_escape tag
  rw [Predicate.item_eq_written]
  generalize p.written suffix = q at hp' hcases
  unfold Reading.condition
  rcases hcases with rfl | hop
  · simp only [Predicate.text_tagged, conditionParts?_name (escape tag) hne hname, unescape_escape]
    rfl
  · -- Every other operator that is written has a mark.
    rcases q with ⟨op, values⟩
    have hplain : ∀ v ∈ values.map escape, ∀ c ∈ v, isPlain c = true := by
      intro v hv
      rcases List.mem_map.mp hv with ⟨w, _, rfl⟩
      exact isPlain_of_mem_escape w
    have hcount : op.accepts (values.map escape).length = true := by
      rw [List.length_map]
      exact hp'
    simp only [conditionParts?_marked _ op _ hne hname hop hcount hplain, unescape_escape,
      List.map_map, Function.comp_def, List.map_id']

/-- A character stands in no item if it is no part of names, marks or the
    joints between values. -/
theorem not_mem_item (suffix tag : String) (p : Predicate) (c : Char)
    (hname : Percent.keptInName c = false ∧ c ≠ '%') (hsign : c ∉ ":=!,".toList) :
    c ∉ p.item suffix tag := by
  have hmark : c ∉ ":=!".toList := fun hc => hsign (List.mem_append_left [','] hc)
  have hcomma : c ≠ ',' := fun hc => hsign (hc ▸ by decide)
  rw [Predicate.item_eq_written, List.mem_append, List.mem_append, not_or, not_or]
  refine ⟨⟨not_mem_encode holdsDigits_name hname, not_mem_mark _ c hname.1 hmark⟩,
    not_mem_joinWith ',' _ c hcomma
      (List.forall_mem_map.mpr fun _ _ => not_mem_encode holdsDigits_name hname)⟩

theorem item_ne_nil (suffix tag : String) (p : Predicate) (htag : tag ≠ "") :
    p.item suffix tag ≠ [] := by
  rw [Predicate.item_eq_written, List.append_assoc]
  exact List.append_ne_nil_of_left_ne_nil (fun h => htag ((escape_eq_nil_iff tag).mp h)) _

namespace SortKey

/-- A written sort key is read as itself. A key without a name is one that
    reading falls back to, and then it sorts upwards. -/
theorem ofItem_item (key : SortKey) (h : key.name ≠ "" ∨ key.direction = .asc) :
    ofItem key.item = key := by
  rcases key with ⟨name, direction⟩
  have hmark : ∃ ms, direction.mark = ':' :: ms := by
    cases direction <;> exact ⟨_, rfl⟩
  rcases hmark with ⟨ms, hms⟩
  have htake := takeWhile_append_cons isPlain (escape name) ms ':' (isPlain_of_mem_escape name)
    (by decide)
  have hdrop := dropWhile_append_cons isPlain (escape name) ms ':' (isPlain_of_mem_escape name)
    (by decide)
  rw [← hms] at htake hdrop
  unfold ofItem item
  simp only [htake, hdrop]
  by_cases hname : name = ""
  · -- The fallback reads a key without a name, and always upwards.
    subst hname
    have hasc : direction = .asc := h.resolve_left fun hn => hn rfl
    subst hasc
    rfl
  · have hne : escape name ≠ [] := fun hn => hname ((escape_eq_nil_iff name).mp hn)
    rw [List.isEmpty_eq_false_iff.mpr hne, unescape_escape]
    cases direction <;> rfl

theorem item_ne_nil (key : SortKey) : key.item ≠ [] := by
  unfold item
  refine List.append_ne_nil_of_right_ne_nil _ ?_
  cases key.direction <;> exact List.cons_ne_nil _ _

theorem not_mem_item (key : SortKey) (c : Char) (hname : Percent.keptInName c = false ∧ c ≠ '%')
    (hmark : ∀ d : Direction, c ∉ d.mark) : c ∉ key.item := by
  unfold item
  rw [List.mem_append, not_or]
  exact ⟨not_mem_encode holdsDigits_name hname, hmark key.direction⟩

end SortKey

end TagCatalog
