import TagCatalog.Proofs.Catalog.Session

/-!
# Sort Keys of Opened Sessions

Which sort keys of a link an opened session has.

A link can carry sort keys on any tags, each of them more than once. A table can
only be sorted by columns that it shows, and by each of them once, so what should
be left is the first key on each column that is shown, in the order of the link.

That is what is left if the link names its columns. If it names none, they come
from the settings' view, and they come later. By then the link has been made a
view, one that shows no column, and no key was on a column of that view. So all
keys are gone before the first column is there. Nothing is lost by that only if the
columns that come have none of the keys.

## Main definitions

* `shownKeys`: The first sort key on each column that is shown.

## Theorems

* `shownKeys_eq_nil_iff`: When no sort key is shown.
* `ofQuery_sort`: The sort keys of a view that shows a request.
* `Opens.sorted`: Columns and sort keys of an opened session, by where its columns
  come from.
* `sort_opened_iff`: When an opened session is sorted as the link says.
* `sort_dropped`: A link whose sort key is lost.
-/

namespace TagCatalog

open Exchange

/-- The first sort key on each column that is shown, in the order of the keys. -/
def shownKeys (keys : List SortKey) (columns : List String) : List SortKey :=
  (distinctBy SortKey.name keys).filter fun key => columns.contains key.name

theorem shownKeys_eq_nil_iff (keys : List SortKey) (columns : List String) :
    shownKeys keys columns = [] ↔ ∀ key ∈ keys, key.name ∉ columns := by
  rw [shownKeys, ← distinctBy_filter SortKey.name columns.contains, distinctBy_eq_nil_iff,
    List.filter_eq_nil_iff]
  simp only [List.contains_iff_mem]

/-- A view that shows a request has the keys that its own columns show. -/
theorem View.ofQuery_sort (q : Query) (size : PageSize) :
    (View.ofQuery q size).sort = shownKeys q.sort (View.ofQuery q size).columns :=
  distinctBy_filter SortKey.name (distinct q.columns).contains q.sort

namespace Session

variable {settings : Settings} {zone : Zone} {link : Option String}
  {talk : List (Http.Request × Http.Reply)} {notices : List Notice} {s : Session} {q : Query}

/-- The columns of an opened session are those of the link, with the keys that they
    show, or else those of the settings' view, without any key. -/
theorem Opens.sorted (h : Opens settings zone link talk notices s)
    (hq : carried? s.schema zone link = some q) :
    (q.columns ≠ [] ∧ s.view.columns = distinct q.columns ∧
        s.view.sort = shownKeys q.sort s.view.columns) ∨
      (q.columns = [] ∧ s.view.sort = [] ∧
        ∃ viewing names, viewing <:+ talk ∧
          Talk (settings.client.viewColumns settings.defaultView) viewing (.done (.ok names)) ∧
          s.view.columns = distinct names) := by
  cases h with
  | linked _ schema _ hcolumns =>
    -- The session reads its link by the schema that was loaded for it.
    rw [(ofLink_fields schema).2.1] at hq
    rw [ofLink_of_carried hq] at hcolumns ⊢
    refine Or.inl ⟨fun hnone => hcolumns ?_, rfl, View.ofQuery_sort q settings.pageSize⟩
    exact (distinctBy_eq_nil_iff id q.columns).mpr hnone
  | viewed loading viewing schema names _ hcolumns hnames =>
    have hschema : ((ofLink settings schema zone link).withColumns names).schema = schema :=
      (ofLink_fields schema).2.1
    rw [hschema] at hq
    refine Or.inr ⟨columns_eq_nil_of_ofLink schema hcolumns q hq, ?_, viewing, names,
      List.suffix_append loading viewing, hnames, withColumns_columns names hcolumns⟩
    -- Adding columns keeps the keys, and there are none on no columns.
    show (ofLink settings schema zone link).view.sort = []
    rw [ofLink_of_carried hq] at hcolumns ⊢
    refine (View.ofQuery_sort q settings.pageSize).trans ?_
    rw [show (View.ofQuery q settings.pageSize).columns = [] from hcolumns, shownKeys_eq_nil_iff]
    exact fun key _ => List.not_mem_nil

/-- A session that was opened by a link is sorted as the link says exactly if the
    link names a column, or none of its keys is on a column that came from
    elsewhere. -/
theorem sort_opened_iff (h : Talk (start settings zone link) talk (.done ⟨notices, .ok s⟩))
    (hq : carried? s.schema zone link = some q) :
    (s.view.sort = shownKeys q.sort s.view.columns ↔
        q.columns ≠ [] ∨ ∀ key ∈ q.sort, key.name ∉ s.view.columns) ∧
      (q.columns ≠ [] → s.view.columns = distinct q.columns) ∧
      (q.columns = [] → s.view.sort = [] ∧
        ∃ viewing names, viewing <:+ talk ∧
          Talk (settings.client.viewColumns settings.defaultView) viewing (.done (.ok names)) ∧
          s.view.columns = distinct names) := by
  rcases (talk_start_iff.mp h).sorted hq with ⟨hnamed, hcolumns, hsort⟩ | ⟨hnone, hsort, hview⟩
  · exact ⟨iff_of_true hsort (Or.inl hnamed), fun _ => hcolumns, fun hnone => absurd hnone hnamed⟩
  · refine ⟨?_, fun hnamed => absurd hnone hnamed, fun _ => ⟨hsort, hview⟩⟩
    rw [hsort, eq_comm, shownKeys_eq_nil_iff]
    exact ⟨Or.inr, fun h => h.resolve_left fun hnamed => hnamed hnone⟩

/-- Keys on tags that are not shown are left out, and so are further keys on a
    column. -/
theorem sort_opened_named :
    let settings : Settings := { url := "http://h", retries := 0 }
    let link := some "query=http://h/subject/(name;size)x:asc:,size:desc:,name,size:asc:"
    let loading : List (Http.Request × Http.Reply) :=
      [(⟨.get, schemaAddress settings.home⟩, .response ⟨200, "[]", []⟩)]
    ∃ s, Talk (start settings .utc link) loading (.done ⟨[], .ok s⟩) ∧
      s.view.sort = shownKeys [⟨"x", .asc⟩, ⟨"size", .desc⟩, ⟨"name", .asc⟩, ⟨"size", .asc⟩]
        ["name", "size"] := by
  intro settings link loading
  have hschema : Talk settings.client.schema loading (.done (.ok .empty)) := by decide +kernel
  have hcolumns : (ofLink settings .empty .utc link).view.columns ≠ [] := by decide +kernel
  have hopened := talk_start_iff.mpr (.linked loading .empty hschema hcolumns)
  let q : Query :=
    { base := "http://h/subject/"
      columns := ["name", "size"]
      sort := [⟨"x", .asc⟩, ⟨"size", .desc⟩, ⟨"name", .asc⟩, ⟨"size", .asc⟩] }
  have hq : carried? .empty .utc link = some q := by decide +kernel
  rcases sort_opened_iff hopened hq with ⟨hsort, hnamed, _⟩
  refine ⟨_, hopened, ?_⟩
  rw [hsort.mpr (Or.inl (by decide)), hnamed (by decide)]
  rfl

/-- A link names no columns and sorts by one that the settings' view has. -/
theorem sort_dropped :
    let settings : Settings := { url := "http://h", retries := 0 }
    let link := some "query=http://h/subject/()name:desc:"
    let talk : List (Http.Request × Http.Reply) :=
      [(⟨.get, schemaAddress settings.home⟩, .response ⟨200, "[]", []⟩),
        (⟨.get, viewAddress settings.home "default"⟩,
          .response ⟨200, "[\x7b\"view tags\": [\"name\", \"size\"]\x7d]", []⟩)]
    ∃ s q, Talk (start settings .utc link) talk (.done ⟨[.openingView "default"], .ok s⟩) ∧
      carried? s.schema .utc link = some q ∧ s.view.columns = ["name", "size"] ∧
      shownKeys q.sort s.view.columns = [⟨"name", .desc⟩] ∧ s.view.sort = [] := by
  intro settings link talk
  have hschema : Talk settings.client.schema (talk.take 1) (.done (.ok .empty)) := by
    decide +kernel
  have hnames : Talk (settings.client.viewColumns settings.defaultView) (talk.drop 1)
      (.done (.ok ["name", "size"])) := by
    decide +kernel
  have hcolumns : (ofLink settings .empty .utc link).view.columns = [] := by decide +kernel
  have hopened := talk_start_iff.mpr
    (.viewed (talk.take 1) (talk.drop 1) .empty ["name", "size"] hschema hcolumns hnames)
  let q : Query := { base := "http://h/subject/", sort := [⟨"name", .desc⟩] }
  have hq : carried? .empty .utc link = some q := by decide +kernel
  refine ⟨_, q, hopened, hq, ?_, ?_, ?_⟩ <;> decide +kernel

end Session

end TagCatalog
