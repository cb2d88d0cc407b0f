import Mathlib.Algebra.Group.Nat.Defs
import TagCatalog.Proofs.Address.Link
import TagCatalog.Proofs.Query.Page
import TagCatalog.Proofs.View.Invariant
import TagCatalog.View.Request

/-!
# Reopening a View

What a view looks like that is opened from its own bookmark.

A bookmark is written, put into a link, taken out of it, read, and shown as a
view. Showing a request drops columns that come twice and sort keys on columns
that are not shown, so a bookmark could lose some. It does not, because a view
that a person can bring about has neither, and that is where the invariant of
views is needed.

The page is written as the number of its first row and found again by a
division. The filter goes through the reading of conditions, and whether it
comes back is the question that `Schema.Keeps` answers for each of them.

`ofQuery_bookmark` gives the reopened view as a whole for any sound view, and
`bookmark_reopens` is the summary for views that can be brought about.

## Theorems

* `address?_eq_ok_iff`: A view writes the address that its settings write.
* `ofQuery_bookmark`: The view that a bookmark opens.
* `filter_restored`: A filter of conditions that come back is restored.
* `ofQuery_bookmark_eq`: A bookmark opens the very view that it was made of.
* `Keeps.of_simple`: A simple test for conditions that come back.
* `bookmark_reopens`: A bookmark opens the view that it was made of.
-/

namespace TagCatalog

open Text OrderedMap TagCatalog.Interval

/-- Intervals with bounds that hold something and have neither commas nor line
    feeds come back where intervals are allowed, and so do values that do not
    have the form of an interval. -/
theorem Schema.Keeps.of_simple (schema : Schema) (tag : String) (p : Predicate)
    (hinterval : ∀ low high, p = .between low high → schema.allowsRange tag = true ∧
      ∀ bound ∈ [low, high], bound ≠ "" ∧ ',' ∉ bound.toList ∧ '\n' ∉ bound.toList)
    (hequality : ∀ value, p = ⟨.eq, [value]⟩ → schema.allowsRange tag = true →
      ¬ IsInterval value.toList) : schema.Keeps tag p := by
  refine ⟨fun low high hp => ?_, fun value hp hallow _ => hequality value hp hallow⟩
  rcases hinterval low high hp with ⟨hallow, hbounds⟩
  rcases hbounds low (by simp) with ⟨hlow, _, hl⟩
  rcases hbounds high (by simp) with ⟨hhigh, hcomma, hh⟩
  refine ⟨hallow, hl, hh, ?_⟩
  split
  · exact hcomma
  · exact ⟨hlow, hhigh, fun h => hcomma (List.dropLast_subset _ h)⟩

namespace View

theorem address?_eq_ok_iff (a : Addressing) (filter : Filter) (columns : List String)
    (sort : List SortKey) (address : String) :
    View.address? a filter columns sort = .ok address ↔
      a.address? filter columns sort = .ok address.toList := by
  unfold View.address?
  cases a.address? filter columns sort with
  | error e => exact iff_of_false (fun h => nomatch h) fun h => nomatch h
  | ok cs =>
    rw [Except.ok.injEq, Except.ok.injEq]
    exact ⟨fun h => by rw [← h, String.toList_ofList], fun h => by rw [h, String.ofList_toList]⟩

section Bookmark

variable {v : View} {a : Addressing} {address : String}

/-- The view that a bookmark opens, if no edit was open. -/
theorem ofQuery_bookmark (size : PageSize) (hv : v.Sound) (hedit : v.edit = none)
    (htags : ∀ e ∈ v.filter.entries, e.1 ≠ "") (hcolumns : ∀ c ∈ v.columns, c ≠ "")
    (hbase : PlainBase a.base.toList) (h : v.bookmark? a = .ok address) :
    View.ofQuery (a.reading.query address.toList) size =
      { filter := ((v.pageSettings a).writtenPart v.filter).mapValues fun tag ps =>
          ps.map ((v.pageSettings a).reread tag)
        columns := v.columns
        sort := v.sort
        page := Page.holding v.page.offset v.page.size
        edit := none } := by
  -- Sort keys have names because columns have.
  have hsort : ∀ key ∈ v.sort, key.name ≠ "" ∨ key.direction = .asc :=
    fun key hkey => Or.inl (hcolumns key.name (hv.shown key hkey))
  have hwritten : ∀ e ∈ ((v.pageSettings a).writtenPart v.filter).entries, e.1 ≠ "" := by
    intro e he
    rcases (v.pageSettings a).mem_writtenPart v.filter e he with ⟨ps, hps, _⟩
    exact htags (e.1, ps) hps
  have hquery := (v.pageSettings a).query_written v.filter v.columns v.sort address.toList hbase
    hwritten hcolumns hsort ((address?_eq_ok_iff _ _ _ _ _).mp h)
  -- A bookmark asks for no range, so limit and offset are written.
  have hoptions : (v.pageSettings a).options.written = (v.pageSettings a).options := rfl
  -- No key is dropped, since each is on a column that is shown.
  have hkeys : v.sort.filter (fun key => v.columns.contains key.name) = v.sort := by
    rw [List.filter_eq_self]
    exact fun key hkey => List.contains_iff_mem.mpr (hv.shown key hkey)
  rw [show a.reading = (v.pageSettings a).reading from rfl, hquery, hoptions]
  unfold View.ofQuery
  simp only [distinct_of_nodup v.columns hv.columns, hkeys,
    distinctBy_of_nodup SortKey.name v.sort hv.sort, Query.page, pageSettings, hedit,
    Option.isSome_none, Bool.false_eq_true, if_false, Option.getD_some]

/-- A filter is restored if each of its conditions has been chosen and comes
    back. -/
theorem filter_restored (hv : v.Sound) (hedit : v.edit = none) (h : v.bookmark? a = .ok address)
    (hall : ∀ e ∈ v.filter.entries, ∀ p ∈ e.2, p.isUnset = false ∧ a.schema.Keeps e.1 p) :
    (((v.pageSettings a).writtenPart v.filter).mapValues fun tag ps =>
      ps.map ((v.pageSettings a).reread tag)) = v.filter := by
  have hexcluded : (v.pageSettings a).excluded = none := by
    show v.edit.map Edit.tag = none
    rw [hedit]
    rfl
  -- Nothing is left out: no tag is excluded and no tag is without a condition.
  have hwritten : (v.pageSettings a).writtenPart v.filter = v.filter :=
    (v.pageSettings a).writtenPart_eq_self v.filter fun e he =>
      ⟨hexcluded ▸ (Option.some_ne_none e.1).symm, hv.filter e he, fun p hp => (hall e he p hp).1⟩
  have harity := (((v.pageSettings a).address?_eq_ok_iff _ _ _ _).mp
    ((address?_eq_ok_iff _ _ _ _ _).mp h)).2.1
  rw [hwritten] at harity ⊢
  rw [(v.pageSettings a).filter_reread_iff]
  · exact fun e he p hp => (hall e he p hp).2
  · exact fun e he p hp => harity (e.1, p) ((mem_ungrouped v.filter (e.1, p)).mpr ⟨e.2, he, hp⟩)

/-- A bookmark opens the view that it was made of if all its conditions come
    back and its first row can be numbered. -/
theorem ofQuery_bookmark_eq (size : PageSize) (hv : v.Sound) (hedit : v.edit = none)
    (hcolumns : ∀ c ∈ v.columns, c ≠ "") (hbase : PlainBase a.base.toList)
    (hall : ∀ e ∈ v.filter.entries,
      e.1 ≠ "" ∧ ∀ p ∈ e.2, p.isUnset = false ∧ a.schema.Keeps e.1 p)
    (hpage : v.page.index.toNat * v.page.size.rows.toNat < 2 ^ 64)
    (h : v.bookmark? a = .ok address) :
    View.ofQuery (a.reading.query address.toList) size = v := by
  rw [ofQuery_bookmark size hv hedit (fun e he => (hall e he).1) hcolumns hbase h,
    filter_restored hv hedit h fun e he => (hall e he).2, Page.holding_offset, if_pos hpage,
    ← hedit]

/-- A bookmark opens the view that it was made of: the same columns and sort
    keys, the same page as long as its first row can be numbered, and the same
    filter if its conditions are simple enough. -/
theorem bookmark_reopens (home : String) (size : PageSize) (hv : v.Reachable)
    (hedit : v.edit = none) (htags : ∀ e ∈ v.filter.entries, e.1 ≠ "")
    (hcolumns : ∀ c ∈ v.columns, c ≠ "") (hbase : PlainBase a.base.toList)
    (hhome : '?' ∉ home.toList) (h : v.bookmark? a = .ok address) :
    ∃ q, a.reading.linkedQuery? (deepLink home address).toList = some q ∧
      (View.ofQuery q size).columns = v.columns ∧
      (View.ofQuery q size).sort = v.sort ∧
      (View.ofQuery q size).page.size = v.page.size ∧
      (View.ofQuery q size).page.index =
        (if v.page.index.toNat * v.page.size.rows.toNat < 2 ^ 64 then v.page.index
          else Word.greatest / v.page.size.rows) ∧
      ((∀ e ∈ v.filter.entries, ∀ p ∈ e.2, p.isUnset = false ∧
          (∀ low high, p = .between low high → a.schema.allowsRange e.1 = true ∧
            ∀ bound ∈ [low, high], bound ≠ "" ∧ ',' ∉ bound.toList ∧ '\n' ∉ bound.toList) ∧
          (∀ value, p = ⟨.eq, [value]⟩ → a.schema.allowsRange e.1 = true →
            ¬ IsInterval value.toList)) →
        (View.ofQuery q size).filter = v.filter) := by
  -- A link without an address carries none, but an address has its parentheses.
  have haddress : address ≠ "" := by
    rintro rfl
    have htext := (((v.pageSettings a).address?_eq_ok_iff _ _ _ _).mp
      ((address?_eq_ok_iff _ _ _ _ _).mp h)).2.2
    have hmem : '(' ∈ "".toList := by
      rw [htext]
      simp
    exact absurd hmem (by decide)
  refine ⟨a.reading.query address.toList, ?_, ?_⟩
  · rw [Reading.linkedQuery?, carriedAddress?_deepLink home address hhome haddress, Option.map_some]
  · rw [ofQuery_bookmark size hv.sound hedit htags hcolumns hbase h, Page.holding_offset]
    refine ⟨rfl, rfl, rfl, rfl, fun hsimple => ?_⟩
    refine filter_restored hv.sound hedit h fun e he p hp => ?_
    rcases hsimple e he p hp with ⟨hchosen, hinterval, hequality⟩
    exact ⟨hchosen, .of_simple a.schema e.1 p hinterval hequality⟩

end Bookmark

/-- A view that is sorted by points in time is reopened on the page it showed. -/
theorem bookmark_reopens_page :
    let schema : Schema := .ofList [("when", { type := .timestamp })]
    let a : Addressing := ⟨"h/", schema, .utc, {}, none⟩
    let v := (View.new ⟨25, by decide⟩).run
      [.addColumns ["name", "when"] .prepend, .setSort "when" (some .desc),
        .setFilter "when" [.between "1" "2"], .setPage 3]
    ∃ address q, v.bookmark? a = .ok address ∧
      a.reading.linkedQuery? (deepLink "home" address).toList = some q ∧
      (View.ofQuery q ⟨10, by decide⟩).sort = [⟨"when", .desc⟩] ∧
      (View.ofQuery q ⟨10, by decide⟩).page.index = 3 ∧
      (View.ofQuery q ⟨10, by decide⟩).filter.entries = [("when", [.between "1" "2"])] := by
  intro schema a v
  have hbase : PlainBase a.base.toList :=
    ⟨Or.inr ⟨['h'], by decide +revert⟩, by decide +revert, by decide +revert⟩
  have hfilter : v.filter.entries = [("when", [.between "1" "2"])] := by rfl
  have hcolumns : v.columns = ["name", "when"] := by rfl
  have hok : ∃ address, v.bookmark? a = .ok address := ⟨_, rfl⟩
  rcases hok with ⟨address, hok⟩
  rcases bookmark_reopens "home" ⟨10, by decide⟩ (.new _ _) rfl (by rw [hfilter]; decide)
    (by rw [hcolumns]; decide) hbase (by decide) hok with ⟨q, hq, _, hsort, _, hindex, hrestored⟩
  refine ⟨address, q, hok, hq, hsort, hindex, ?_⟩
  rw [hrestored]
  · exact hfilter
  · rw [hfilter]
    intro e he p hp
    rw [List.mem_singleton] at he
    subst he
    rw [List.mem_singleton] at hp
    subst hp
    refine ⟨rfl, fun low high heq => ?_,
      fun _ heq => Operator.noConfusion (congrArg Predicate.op heq)⟩
    rcases (Predicate.between_inj _ _ _ _).mp heq with ⟨rfl, rfl⟩
    exact ⟨rfl, by decide⟩

end View

end TagCatalog
