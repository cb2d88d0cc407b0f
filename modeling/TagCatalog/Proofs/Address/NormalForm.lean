import TagCatalog.Proofs.Address.Grammar
import TagCatalog.Proofs.Address.RoundTrip

/-!
# Normal Form of Requests

What can be read from an address, and why it can be written again.

Every text is read as some request. Most texts are no address that was ever
written, and each fallback of the reader could in principle produce something
that no address stands for: a tag without a name, a condition with too few
values, an interval whose bounds are found at another comma. None of them
does. What is read has names, its conditions have been chosen and have the
right numbers of values, and its base is one behind which a clause is found
again.

So a request that was read can be written whenever it has a column, and what
is written is read as the same request. One exception remains. A point in time
is read without the suffix of the zone, and an upper bound that has no suffix
may end in a comma. Writing appends the suffix behind that comma, and from then
on the comma divides the bounds at another place.

The proofs go through the parts of an address from the inside out: the values
of one condition, one item, the clause, and last the whole address.

## Main definitions

* `Predicate.ClosesWithComma`: An interval whose upper bound ends in a comma.
* `Reading.Complete`: What is known of a condition that was read.
* `Reading.Normal`: What is known of a request that was read.
* `Reading.addressing`: The settings under which a request is written again.

## Theorems

* `conditionParts?_spec`: An item that is a condition has a name, and an
  operator with as many values as it takes.
* `complete_predicate`, `complete_condition`, `complete_filter`: The conditions
  that are read are complete.
* `plainBase_ofAddress`: The bases that are read.
* `normal_query`: Every text is read as a request in normal form.
* `Normal.address?_isOk_iff`: When such a request can be written.
* `Normal.query_again_iff`: When it comes back.
* `query_query`: What is read can be written, and is read again.
-/

namespace TagCatalog

open Text OrderedMap TagCatalog.Interval

/-- An item that is a condition has a name, and an operator in it has a mark and
    as many values as it takes. -/
theorem conditionParts?_spec (item name : List Char) (mark : Option (Operator × List (List Char)))
    (h : conditionParts? item = some (name, mark)) :
    name ≠ [] ∧ ∀ op values, mark = some (op, values) →
      op ∈ markedOperators ∧ op.accepts values.length = true := by
  rcases (ItemForm.conditionParts?_eq_some_iff item _).mp h with ⟨form, hform, _, hparts⟩
  have hname : form.name = name := by
    cases form <;> exact congrArg Prod.fst hparts
  refine ⟨hname ▸ hform.named, fun op values hmark => ?_⟩
  rw [hmark] at hparts
  cases form with
  | present => exact absurd (congrArg Prod.snd hparts).symm (Option.some_ne_none _)
  | absent =>
    rcases Option.some.inj (congrArg Prod.snd hparts) with ⟨⟩
    exact ⟨by decide, rfl⟩
  | valued =>
    rcases Option.some.inj (congrArg Prod.snd hparts) with ⟨⟩
    rcases hform.values _ _ _ rfl with ⟨harity, hne, _⟩
    refine ⟨ItemForm.marked_of_arity op harity, ?_⟩
    rw [Operator.accepts, harity, Arity.accepts, decide_eq_true_eq]
    exact List.length_pos_iff.mpr hne

/-- An interval whose upper bound ends in a comma. -/
def Predicate.ClosesWithComma (p : Predicate) : Prop :=
  ∃ low high, p = .between low high ∧ high.toList.getLast? = some ','

theorem Predicate.not_closesWithComma (p : Predicate) (h : p.op ≠ .between) :
    ¬ p.ClosesWithComma := by
  rintro ⟨low, high, rfl, _⟩
  exact h rfl

theorem Predicate.closesWithComma_between (low high : String) :
    (between low high).ClosesWithComma ↔ high.toList.getLast? = some ',' := by
  refine ⟨fun ⟨l, u, heq, hlast⟩ => ?_, fun h => ⟨low, high, rfl, h⟩⟩
  rw [((between_inj low high l u).mp heq).2]
  exact hlast

namespace Reading

/-- What is known of a condition that was read: it has been chosen, it has the
    right number of values, and it comes back but for one exception. -/
structure Complete (r : Reading) (tag : String) (p : Predicate) : Prop where
  arity : p.hasValidArity = true
  chosen : p.isUnset = false
  keeps : r.schema.Keeps tag p ↔ (r.schema.isTimestamp tag = true → ¬ p.ClosesWithComma)

variable (r : Reading) (tag : String)

/-- Taking away the suffix of the zone leaves the beginning of a value. -/
theorem strip_isPrefix (value : List Char) : (r.strip tag value).toList <+: value := by
  unfold strip
  rw [String.toList_ofList]
  split
  · cases hstrip : stripEnd? r.zone.suffix.toList value with
    | none => exact List.prefix_rfl
    | some front => exact ⟨_, ((stripEnd?_eq_some_iff _ _ _).mp hstrip).symm⟩
  · exact List.prefix_rfl

theorem strip_of_not_isTimestamp (value : List Char) (h : r.schema.isTimestamp tag = false) :
    r.strip tag value = String.ofList value := by
  rw [strip, h]
  rfl

/-- If only the last character of a text may be a comma, then the same is true
    of every beginning of it. -/
theorem comma_mem_iff_of_isPrefix (text front : List Char) (hcomma : ',' ∉ text.dropLast)
    (h : front <+: text) : ',' ∈ front ↔ front.getLast? = some ',' := by
  refine ⟨fun hmem => ?_, List.mem_of_getLast?⟩
  rcases h with ⟨rest, rfl⟩
  rcases List.eq_nil_or_concat front with rfl | ⟨l, c, rfl⟩
  · exact absurd hmem List.not_mem_nil
  · rw [List.concat_eq_append] at hcomma hmem ⊢
    -- What stands before the last character is never at the end of the text.
    have hl : ',' ∉ l := by
      intro hl
      rw [List.append_assoc, List.singleton_append,
        List.dropLast_append_of_ne_nil (List.cons_ne_nil c rest)] at hcomma
      exact hcomma (List.mem_append_left _ hl)
    rcases List.mem_append.mp hmem with hmem | hmem
    · exact absurd hmem hl
    · rw [List.getLast?_concat, List.mem_singleton.mp hmem]

/-- A condition that is no interval, and no equality that is taken for one, is
    complete. -/
theorem complete_of_keeps (p : Predicate) (harity : p.hasValidArity = true)
    (hchosen : p.isUnset = false) (hop : p.op ≠ .between) (hkeeps : r.schema.Keeps tag p) :
    r.Complete tag p :=
  ⟨harity, hchosen, iff_of_true hkeeps fun _ => p.not_closesWithComma hop⟩

/-- The bounds that are read from an interval have no line feed, and the upper
    one has no comma except perhaps at its end. So the interval comes back
    unless the suffix of points in time follows that comma. -/
theorem complete_between (value low high : List Char) (hallow : r.schema.allowsRange tag = true)
    (hread : read? value = some (low, high)) :
    r.Complete tag (.between (r.strip tag low) (r.strip tag high)) := by
  rcases (read?_eq_some_iff _ low high).mp hread with ⟨_, hlow, hhigh, hl, hh, hcomma⟩
  have hl' : '\n' ∉ (r.strip tag low).toList := fun h => hl ((r.strip_isPrefix tag low).subset h)
  have hh' : '\n' ∉ (r.strip tag high).toList := fun h => hh ((r.strip_isPrefix tag high).subset h)
  have hends := comma_mem_iff_of_isPrefix high _ hcomma (r.strip_isPrefix tag high)
  refine ⟨rfl, rfl, ?_⟩
  rw [Schema.keeps_between, Predicate.closesWithComma_between, ← hends]
  cases hts : r.schema.isTimestamp tag with
  | false =>
    refine iff_of_true ⟨hallow, hl', hh', ?_⟩ fun h => Bool.noConfusion h
    rw [if_neg Bool.false_ne_true, strip_of_not_isTimestamp r tag low hts,
      strip_of_not_isTimestamp r tag high hts, String.toList_ofList]
    exact ⟨fun h => hlow (String.ofList_eq_empty_iff.mp h),
      fun h => hhigh (String.ofList_eq_empty_iff.mp h), hcomma⟩
  | true =>
    rw [if_pos rfl]
    exact ⟨fun h _ => h.2.2.2, fun h => ⟨hallow, hl', hh', h rfl⟩⟩

/-- The conditions that are read are complete. -/
theorem complete_predicate (op : Operator) (values : List String) (hop : op ∈ markedOperators)
    (hcount : op.accepts values.length = true) : r.Complete tag (r.predicate tag op values) := by
  have hbetween : op ≠ .between := by
    rintro rfl
    exact absurd hop (by decide)
  have hchosen : op ≠ .unset := by
    rintro rfl
    exact absurd hop (by decide)
  -- What is not taken for an interval keeps its operator and values.
  have hplain : r.schema.Keeps tag ⟨op, values.map fun v => r.strip tag v.toList⟩ →
      r.Complete tag ⟨op, values.map fun v => r.strip tag v.toList⟩ := by
    refine complete_of_keeps r tag _ ?_ (decide_eq_false hchosen) hbetween
    rw [Predicate.hasValidArity, List.length_map]
    exact hcount
  unfold predicate
  split
  · next value =>
    rw [List.map_singleton, Schema.keeps_single] at hplain
    by_cases hallow : r.schema.allowsRange tag = true
    · rw [if_pos hallow]
      cases hread : read? value.toList with
      | none =>
        refine hplain fun _ hts => ?_
        rw [strip_of_not_isTimestamp r tag _ hts, String.toList_ofList, ← read?_eq_none_iff]
        exact hread
      | some bounds => exact r.complete_between tag value.toList bounds.1 bounds.2 hallow hread
    · rw [if_neg hallow]
      exact hplain fun h => absurd h hallow
  · next hother =>
    refine hplain (r.schema.keeps_of_other tag _ hbetween fun v heq => ?_)
    rcases List.map_eq_singleton_iff.mp (congrArg Predicate.values heq) with ⟨w, hw, _⟩
    exact hother w (congrArg Predicate.op heq) hw

theorem complete_tagged : r.Complete tag .tagged :=
  complete_of_keeps r tag _ rfl rfl (by decide) <|
    r.schema.keeps_of_other tag _ (by decide) fun _ h =>
      Operator.noConfusion (congrArg Predicate.op h)

/-- An item that holds something is read as a complete condition on a tag with
    a name. -/
theorem complete_condition (item : List Char) (hitem : item ≠ []) :
    (r.condition item).1 ≠ "" ∧ r.Complete (r.condition item).1 (r.condition item).2 := by
  unfold condition
  cases hparts : conditionParts? item with
  | none => exact ⟨unescape_ne_empty item hitem, r.complete_tagged _⟩
  | some parts =>
    rcases parts with ⟨name, mark⟩
    rcases conditionParts?_spec item name mark hparts with ⟨hname, hmark⟩
    cases mark with
    | none => exact ⟨unescape_ne_empty name hname, r.complete_tagged _⟩
    | some mark =>
      rcases mark with ⟨op, values⟩
      rcases hmark op values rfl with ⟨hop, hcount⟩
      rw [← List.length_map (f := unescape)] at hcount
      exact ⟨unescape_ne_empty name hname, r.complete_predicate _ op _ hop hcount⟩

/-- Every tag of a filter that is read has a name and complete conditions. -/
theorem complete_filter (clause : List Char) (e : String × List Predicate)
    (he : e ∈ (r.filter clause).entries) :
    e.1 ≠ "" ∧ e.2 ≠ [] ∧ ∀ p ∈ e.2, r.Complete e.1 p := by
  rw [filter_eq_gather] at he
  -- Each condition of the tag was read from an item that names the tag.
  rcases mem_gather _ e he with ⟨hne, hall⟩
  have hread : ∀ p ∈ e.2, e.1 ≠ "" ∧ r.Complete e.1 p := by
    intro p hp
    rcases List.mem_map.mp (hall p hp) with ⟨item, hmem, hitem⟩
    have hspec := r.complete_condition item (mem_filledPieces ';' clause item hmem)
    rw [hitem] at hspec
    exact hspec
  rcases List.exists_mem_of_ne_nil e.2 hne with ⟨p, hp⟩
  exact ⟨(hread p hp).1, hne, fun q hq => (hread q hq).2⟩

end Reading

/-- The base of any text is one behind which a clause is found again. -/
theorem plainBase_ofAddress (address : List Char) :
    PlainBase (AddressParts.ofAddress address).base := by
  -- The path ends before the first question mark, with or without one.
  have hpath : '?' ∉ ((cut? '?' address).getD (address, [])).1 := by
    cases hcut : cut? '?' address with
    | none => exact (cut?_eq_none_iff '?' address).mp hcut
    | some ab => exact ((cut?_eq_some_iff '?' address ab.1 ab.2).mp hcut).2
  unfold AddressParts.ofAddress
  generalize (cut? '?' address).getD (address, []) = parts at hpath
  rcases parts with ⟨path, options⟩
  have hsub : path.takeWhile (fun c => decide (c ≠ '(')) ⊆ path := List.takeWhile_subset _
  have hall := List.all_takeWhile (p := fun c => decide (c ≠ '(')) (l := path)
  simp only at hpath ⊢
  generalize path.takeWhile (fun c => decide (c ≠ '(')) = head at hsub hall
  rw [List.all_eq_true] at hall
  -- The base is a beginning of the text before the parenthesis.
  have hthrough := throughLast_spec '/' head
  generalize throughLast '/' head = baseClause at hthrough
  rcases baseClause with ⟨base, clause⟩
  rcases hthrough with ⟨rfl, hends, _⟩
  refine ⟨hends, fun h => hpath (hsub (List.mem_append_left _ h)), fun h => ?_⟩
  exact absurd (hall '(' (List.mem_append_left _ h)) (by decide)

/-- A sort key that is read has a name or sorts upwards. -/
theorem SortKey.ofItem_spec (item : List Char) :
    (SortKey.ofItem item).name ≠ "" ∨ (SortKey.ofItem item).direction = .asc := by
  unfold SortKey.ofItem
  simp only
  split
  · exact Or.inr rfl
  · split
    · next h =>
      rw [Bool.and_eq_true, Bool.not_eq_true'] at h
      exact Or.inl (unescape_ne_empty _ (List.isEmpty_eq_false_iff.mp h.1))
    · exact Or.inr rfl

namespace Reading

/-- The settings under which a request that was read is written again. -/
def addressing (r : Reading) (q : Query) : Addressing :=
  { base := q.base, schema := r.schema, zone := r.zone, options := q.options }

/-- What is known of a request that was read. -/
structure Normal (r : Reading) (q : Query) : Prop where
  base : PlainBase q.base.toList
  filter : ∀ e ∈ q.filter.entries, e.1 ≠ "" ∧ e.2 ≠ [] ∧ ∀ p ∈ e.2, r.Complete e.1 p
  columns : ∀ c ∈ q.columns, c ≠ ""
  sort : ∀ k ∈ q.sort, k.name ≠ "" ∨ k.direction = .asc

variable (r : Reading)

/-- Every text is read as a request in normal form. -/
theorem normal_query (address : List Char) : r.Normal (r.query address) where
  base := by
    rw [show (r.query address).base = String.ofList (AddressParts.ofAddress address).base from rfl,
      String.toList_ofList]
    exact plainBase_ofAddress address
  filter := r.complete_filter _
  columns := by
    intro c hc
    rcases List.mem_map.mp hc with ⟨piece, hpiece, rfl⟩
    exact unescape_ne_empty piece (mem_filledPieces ';' _ piece hpiece)
  sort := by
    intro k hk
    rcases List.mem_map.mp hk with ⟨piece, _, rfl⟩
    exact SortKey.ofItem_spec piece

namespace Normal

variable {r : Reading} {q : Query} (hq : r.Normal q)

include hq

theorem writtenPart : (r.addressing q).writtenPart q.filter = q.filter :=
  (r.addressing q).writtenPart_eq_self q.filter fun e he =>
    ⟨(Option.some_ne_none e.1).symm, (hq.filter e he).2.1,
      fun p hp => ((hq.filter e he).2.2 p hp).chosen⟩

/-- A request in normal form can be written when it has a column. -/
theorem address?_isOk_iff :
    (∃ again, (r.addressing q).address? q.filter q.columns q.sort = .ok again) ↔
      q.columns ≠ [] := by
  constructor
  · rintro ⟨again, hagain⟩
    exact (((r.addressing q).address?_eq_ok_iff _ _ _ again).mp hagain).1
  · intro hne
    refine ⟨_, ((r.addressing q).address?_eq_ok_iff _ _ _ _).mpr ⟨hne, ?_, rfl⟩⟩
    rw [hq.writtenPart]
    intro c hc
    rcases (mem_ungrouped _ c).mp hc with ⟨ps, hps, hmem⟩
    exact ((hq.filter _ hps).2.2 c.2 hmem).arity

/-- What a request in normal form is read as after it was written. -/
theorem query_again_iff (again : List Char)
    (hagain : (r.addressing q).address? q.filter q.columns q.sort = .ok again) :
    r.query again = { q with options := q.options.written } ↔
      ∀ e ∈ q.filter.entries, r.schema.isTimestamp e.1 = true → ∀ p ∈ e.2, ¬ p.ClosesWithComma := by
  have hquery := (r.addressing q).query_written q.filter q.columns q.sort again hq.base
    (by rw [hq.writtenPart]; exact fun e he => (hq.filter e he).1) hq.columns hq.sort hagain
  have hreread := (r.addressing q).filter_reread_iff q.filter
    fun e he p hp => ((hq.filter e he).2.2 p hp).arity
  rw [hq.writtenPart] at hquery
  rw [show r.query again = (r.addressing q).reading.query again from rfl, hquery]
  -- Only the filters can differ.
  have hfilters : (Query.mk q.base
        (q.filter.mapValues fun tag ps => ps.map ((r.addressing q).reread tag)) q.columns q.sort
        q.options.written = { q with options := q.options.written }) ↔
      (q.filter.mapValues fun tag ps => ps.map ((r.addressing q).reread tag)) = q.filter :=
    ⟨fun h => congrArg Query.filter h, fun h => by rw [h]⟩
  refine hfilters.trans (hreread.trans (forall₂_congr fun e he => ?_))
  constructor
  · exact fun h hts p hp => ((hq.filter e he).2.2 p hp).keeps.mp (h p hp) hts
  · exact fun h p hp => ((hq.filter e he).2.2 p hp).keeps.mpr fun hts => h hts p hp

end Normal

/-- What is read from any text names its tags and puts complete conditions on
    them. It can be written when it has a column. What is written then is read
    as the same request, but for what a range leaves out, exactly when no
    interval on points in time has an upper bound that ends in a comma. -/
theorem query_query (address : List Char) :
    (∀ e ∈ (r.query address).filter.entries,
      e.1 ≠ "" ∧ e.2 ≠ [] ∧ ∀ p ∈ e.2, p.hasValidArity = true ∧ p.isUnset = false) ∧
    ((∃ again, (r.addressing (r.query address)).address? (r.query address).filter
      (r.query address).columns (r.query address).sort = .ok again) ↔
      (r.query address).columns ≠ []) ∧
    ∀ again, (r.addressing (r.query address)).address? (r.query address).filter
      (r.query address).columns (r.query address).sort = .ok again →
      (r.query again = { r.query address with options := (r.query address).options.written } ↔
        ∀ e ∈ (r.query address).filter.entries, r.schema.isTimestamp e.1 = true →
          ∀ p ∈ e.2, ¬ p.ClosesWithComma) := by
  have hnormal := r.normal_query address
  refine ⟨fun e he => ?_, hnormal.address?_isOk_iff, hnormal.query_again_iff⟩
  rcases hnormal.filter e he with ⟨hname, hne, hall⟩
  exact ⟨hname, hne, fun p hp => ⟨(hall p hp).arity, (hall p hp).chosen⟩⟩

/-- An item that is no condition, conditions on one tag in two places, a direction that
    is none, a sort key without a name and options that are not understood are read as
    something all the same. It is written in another way and comes back. -/
theorem query_query_careless :
    let r : Reading := ⟨.ofList [("m", { type := .timestamp })], .utc⟩
    let address := "h/x=1;;y&;x:geq:;m=%281%2c2%29(id;;b)b:up:,:desc:?limit=0&versions=all".toList
    let q : Query :=
      { base := "h/"
        filter := .ofList
          [("x", [⟨.eq, ["1"]⟩, ⟨.greaterEq, [""]⟩]), ("y&", [.tagged]), ("m", [.between "1" "2"])]
        columns := ["id", "b"]
        sort := [⟨"b", .asc⟩, ⟨"", .asc⟩]
        options := {} }
    let again :=
      "h/x=1;x:geq:;y%26;m=%281%2B00%3A00%2C2%2B00%3A00%29(id;b)b:asc:,:asc:?versions=latest".toList
    r.query address = q ∧
      (r.addressing q).address? q.filter q.columns q.sort = .ok again ∧ r.query again = q := by
  intro r address q again
  have hread : r.query address = q := by decide +kernel
  have hok : (r.addressing q).address? q.filter q.columns q.sort = .ok again := by decide +kernel
  have hagain := (r.query_query address).2.2
  rw [hread] at hagain
  refine ⟨hread, hok, (hagain again hok).mpr ?_⟩
  have hentries : q.filter.entries = [("x", [⟨.eq, ["1"]⟩, ⟨.greaterEq, [""]⟩]),
    ("y&", [.tagged]), ("m", [.between "1" "2"])] := by rfl
  have hx : r.schema.isTimestamp "x" ≠ true := by decide
  have hy : r.schema.isTimestamp "y&" ≠ true := by decide
  rw [hentries]
  -- Only one tag has points in time, and there the upper bound ends in a digit.
  refine List.forall_mem_cons.mpr ⟨fun h => absurd h hx,
    List.forall_mem_cons.mpr ⟨fun h => absurd h hy, List.forall_mem_singleton.mpr fun _ => ?_⟩⟩
  rw [List.forall_mem_singleton, Predicate.closesWithComma_between]
  decide

end Reading

end TagCatalog
