import TagCatalog.Catalog.Session
import TagCatalog.Proofs.Catalog.Activity
import TagCatalog.Proofs.View.Replace

/-!
# Opening Sessions

Which sessions a link can open, and what their bookmarks open.

A session is opened in one of two ways. If the link names a column, the schema
is all that has to be known. Otherwise the columns of the settings' view are
asked for as well, and the person is told. `Session.Opens` lists the two ways,
and `talk_start_iff` says that there are no others.

A link is any text, so the request that it carries can be all sorts of things.
But it was read, and reading leaves a normal form. What is not read comes from
the settings or from the view's columns. `Session.Settled` collects what is true
of every session after that, and it is all that a bookmark needs: the first
opening has settled whatever a later one could change. The one thing it cannot
settle is an interval on points in time whose upper bound ends in a comma, since
the suffix of the zone is written behind it.

## Main definitions

* `Session.Opens`: The two ways in which a session is opened.
* `Session.Settled`: What is known of an opened session.

## Theorems

* `talk_start_iff`: Which conversations open which session.
* `settled_ofLink`, `Settled.withColumns`, `Opens.settled`: Opened sessions are
  settled.
* `ofLink_of_carried`, `withColumns_columns`: What an opened session shows.
* `Settled.bookmark?_isOk_iff`: When a settled session has a bookmark.
* `Settled.ofLink_bookmark`: A bookmark describes the session it was made of.
-/

namespace TagCatalog

open Exchange Text

/-- What the addresses of subjects begin with is a base if the root of the
    catalog's addresses has no mark of the grammar. -/
theorem Settings.plainBase_subjectBase (settings : Settings)
    (hquestion : '?' ∉ settings.home.toList) (hparen : '(' ∉ settings.home.toList) :
    PlainBase settings.subjectBase.toList := by
  have htext : settings.subjectBase.toList = settings.home.toList ++ "/subject/".toList :=
    String.toList_append
  rw [htext]
  refine ⟨Or.inr ⟨settings.home.toList ++ "/subject".toList, ?_⟩, ?_, ?_⟩
  · rw [List.append_assoc]
    rfl
  · rw [List.mem_append, not_or]
    exact ⟨hquestion, by decide⟩
  · rw [List.mem_append, not_or]
    exact ⟨hparen, by decide⟩

theorem Settings.subjectBase_ne_empty (settings : Settings) : settings.subjectBase ≠ "" := by
  intro h
  have htext : settings.home.toList ++ "/subject/".toList = [] := by
    rw [← String.toList_append]
    exact congrArg String.toList h
  exact absurd (List.append_eq_nil_iff.mp htext).2 (by decide)

namespace Session

/-- The request that a link carries, if there is a link and it carries one. -/
def carried? (schema : Schema) (zone : Zone) (link : Option String) : Option Query :=
  link.bind fun l => (Reading.mk schema zone).linkedQuery? l.toList

/-- The two ways in which a link opens a session, with the conversation and what
    the person is told. -/
inductive Opens (settings : Settings) (zone : Zone) (link : Option String) :
    List (Http.Request × Http.Reply) → List Notice → Session → Prop
  | linked (loading : List (Http.Request × Http.Reply)) (schema : Schema)
      (hschema : Talk settings.client.schema loading (.done (.ok schema)))
      (hcolumns : (ofLink settings schema zone link).view.columns ≠ []) :
      Opens settings zone link loading [] (ofLink settings schema zone link)
  | viewed (loading viewing : List (Http.Request × Http.Reply)) (schema : Schema)
      (names : List String) (hschema : Talk settings.client.schema loading (.done (.ok schema)))
      (hcolumns : (ofLink settings schema zone link).view.columns = [])
      (hnames : Talk (settings.client.viewColumns settings.defaultView) viewing
        (.done (.ok names))) :
      Opens settings zone link (loading ++ viewing) [.openingView settings.defaultView]
        ((ofLink settings schema zone link).withColumns names)

section Opening

variable {settings : Settings} {zone : Zone} {link : Option String}
  {talk : List (Http.Request × Http.Reply)} {notices : List Notice} {s : Session}

theorem talk_start_iff :
    Talk (start settings zone link) talk (.done ⟨notices, .ok s⟩) ↔
      Opens settings zone link talk notices s := by
  unfold start
  rw [Activity.talk_quiet_andThen_iff]
  constructor
  · rintro ⟨schema, loading, rest, rfl, hschema, hrest⟩
    simp only at hrest
    -- Whether the view is asked for is known from the link and the schema.
    split at hrest
    · next hempty =>
      rcases (Activity.talk_telling_iff _ _ _).mp hrest with ⟨told, rfl, hview⟩
      rcases (Activity.talk_quiet_andThen_iff _ _ _).mp hview with
        ⟨names, viewing, last, rfl, hnames, hlast⟩
      rcases (Activity.talk_known_iff _ _).mp hlast with ⟨rfl, rfl, heq⟩
      rw [List.append_nil, Except.ok.inj heq]
      exact .viewed loading viewing schema names hschema (List.isEmpty_iff.mp hempty) hnames
    · next hfull =>
      rcases (Activity.talk_known_iff _ _).mp hrest with ⟨rfl, rfl, heq⟩
      rw [List.append_nil, Except.ok.inj heq]
      exact .linked loading schema hschema fun h => hfull (List.isEmpty_iff.mpr h)
  · intro h
    cases h with
    | linked _ schema hschema hcolumns =>
      refine ⟨schema, talk, [], (List.append_nil talk).symm, hschema, ?_⟩
      simp only [List.isEmpty_eq_false_iff.mpr hcolumns, Bool.false_eq_true, if_false]
      exact (Activity.talk_known_iff _ _).mpr ⟨rfl, rfl, rfl⟩
    | viewed loading viewing schema names hschema hcolumns hnames =>
      refine ⟨schema, loading, viewing, rfl, hschema, ?_⟩
      simp only [hcolumns, List.isEmpty_nil, if_true]
      refine (Activity.talk_telling_iff _ _ _).mpr ⟨[], rfl, ?_⟩
      exact (Activity.talk_quiet_andThen_iff _ _ _).mpr ⟨names, viewing, [],
        (List.append_nil viewing).symm, hnames, (Activity.talk_known_iff _ _).mpr ⟨rfl, rfl, rfl⟩⟩

theorem ofLink_fields (schema : Schema) :
    (ofLink settings schema zone link).settings = settings ∧
      (ofLink settings schema zone link).schema = schema ∧
      (ofLink settings schema zone link).zone = zone := by
  unfold ofLink
  split <;> exact ⟨rfl, rfl, rfl⟩

/-- What a link carries was read, and so it is in normal form. -/
theorem normal_carried {schema : Schema} {q : Query} (hq : carried? schema zone link = some q) :
    (Reading.mk schema zone).Normal q := by
  rcases Option.bind_eq_some_iff.mp hq with ⟨l, _, hlinked⟩
  rcases Option.map_eq_some_iff.mp hlinked with ⟨address, _, rfl⟩
  exact Reading.normal_query _ address.toList

theorem ofLink_edit (schema : Schema) : (ofLink settings schema zone link).view.edit = none := by
  unfold ofLink
  split <;> rfl

/-- The base of the settings is taken if the link names it or none. -/
theorem ofLink_base_eq_iff (schema : Schema) :
    (ofLink settings schema zone link).base = settings.subjectBase ↔
      ∀ q, carried? schema zone link = some q → q.base = "" ∨ q.base = settings.subjectBase := by
  unfold ofLink
  split
  · next q hq =>
    have hcarried : carried? schema zone link = some q := hq
    simp only [ofQuery, hcarried, Option.some.injEq, forall_eq']
    by_cases hempty : q.base = ""
    · simp [hempty]
    · simp [hempty, String.isEmpty_iff]
  · next hq =>
    exact iff_of_true rfl fun q hcarried => nomatch hcarried.symm.trans hq

theorem ofLink_filter (schema : Schema) (e : String × List Predicate)
    (he : e ∈ (ofLink settings schema zone link).view.filter.entries) :
    ∃ q, carried? schema zone link = some q ∧ e ∈ q.filter.entries := by
  unfold ofLink at he
  split at he
  · next q hq => exact ⟨q, hq, he⟩
  · exact absurd he List.not_mem_nil

/-- A link that carries a request describes the session that shows it. -/
theorem ofLink_of_carried {schema : Schema} {q : Query} (hq : carried? schema zone link = some q) :
    ofLink settings schema zone link = ofQuery settings schema zone q := by
  unfold ofLink
  rw [show (link.bind fun l => (Reading.mk schema zone).linkedQuery? l.toList) = some q from hq]

theorem columns_eq_nil_of_ofLink (schema : Schema)
    (h : (ofLink settings schema zone link).view.columns = []) (q : Query)
    (hq : carried? schema zone link = some q) : q.columns = [] := by
  rw [ofLink_of_carried hq] at h
  exact (distinctBy_eq_nil_iff id q.columns).mp h

/-- A session without columns is given those that are asked for. -/
theorem withColumns_columns (names : List String) (h : s.view.columns = []) :
    (s.withColumns names).view.columns = distinct names :=
  congrArg View.columns (s.view.addColumns_of_no_columns names h)

theorem withColumns_eq_nil_iff (names : List String) (h : s.view.columns = []) :
    (s.withColumns names).view.columns = [] ↔ names = [] := by
  rw [withColumns_columns names h]
  exact distinctBy_eq_nil_iff id names

namespace Opens

variable (h : Opens settings zone link talk notices s)

include h

theorem settings_zone : s.settings = settings ∧ s.zone = zone := by
  cases h <;> exact ⟨(ofLink_fields _).1, (ofLink_fields _).2.2⟩

/-- The conversation begins with the one about the schema. -/
theorem schema_loaded :
    ∃ loading, loading <+: talk ∧ Talk settings.client.schema loading (.done (.ok s.schema)) := by
  cases h with
  | linked _ schema hschema _ =>
    exact ⟨talk, List.prefix_rfl, (ofLink_fields schema).2.1.symm ▸ hschema⟩
  | viewed loading viewing schema _ hschema _ _ =>
    exact ⟨loading, List.prefix_append loading viewing, (ofLink_fields schema).2.1.symm ▸ hschema⟩

/-- All conditions of the session come from the link. -/
theorem filter_carried (e : String × List Predicate) (he : e ∈ s.view.filter.entries) :
    ∃ q, carried? s.schema zone link = some q ∧ e ∈ q.filter.entries := by
  cases h with
  | linked _ schema _ _ => exact (ofLink_fields schema).2.1.symm ▸ ofLink_filter schema e he
  | viewed _ _ schema _ _ _ _ => exact (ofLink_fields schema).2.1.symm ▸ ofLink_filter schema e he

/-- But for its columns, a session is as the link and the schema describe it. -/
theorem described :
    s.addressing = (ofLink settings s.schema zone link).addressing ∧
      s.view.filter = (ofLink settings s.schema zone link).view.filter ∧ s.view.edit = none := by
  cases h with
  | linked _ schema _ _ =>
    rw [(ofLink_fields schema).2.1]
    exact ⟨rfl, rfl, ofLink_edit schema⟩
  | viewed _ _ schema names _ _ _ =>
    have hschema : ((ofLink settings schema zone link).withColumns names).schema = schema :=
      (ofLink_fields schema).2.1
    rw [hschema]
    exact ⟨rfl, rfl, ofLink_edit schema⟩

/-- No condition of an opened session stops a request. -/
theorem writable (e : String × List Predicate) (he : e ∈ s.view.filter.entries) (p : Predicate)
    (hp : p ∈ e.2) : p.IsWritable := by
  rcases h.filter_carried e he with ⟨q, hq, hmem⟩
  exact fun _ => (((normal_carried hq).filter e hmem).2.2 p hp).arity

/-- A session without columns was opened by a link that gives none, and the
    view that was asked for gave none either. -/
theorem no_columns (hcolumns : s.view.columns = []) :
    (∀ q, carried? s.schema zone link = some q → q.columns = []) ∧
      ∃ viewing, viewing <:+ talk ∧
        Talk (settings.client.viewColumns settings.defaultView) viewing (.done (.ok [])) := by
  cases h with
  | linked _ schema _ hne => exact absurd hcolumns hne
  | viewed loading viewing schema names _ hempty hnames =>
    rw [withColumns_eq_nil_iff names hempty] at hcolumns
    subst hcolumns
    refine ⟨?_, viewing, List.suffix_append loading viewing, hnames⟩
    exact (ofLink_fields schema).2.1.symm ▸ columns_eq_nil_of_ofLink schema hempty

end Opens

end Opening

/-- What is known of an opened session. -/
structure Settled (s : Session) : Prop where
  view : s.view.Sound
  edit : s.view.edit = none
  base : PlainBase s.base.toList
  /-- A request without a base is given that of the settings. -/
  based : s.base ≠ ""
  filter : ∀ e ∈ s.view.filter.entries,
    e.1 ≠ "" ∧ ∀ p ∈ e.2, s.addressing.reading.Complete e.1 p
  columns : ∀ c ∈ s.view.columns, c ≠ ""
  /-- The first row that is shown can be numbered. -/
  page : s.view.page.index.toNat * s.view.page.size.rows.toNat < 2 ^ 64

theorem settled_ofLink (settings : Settings) (schema : Schema) (zone : Zone) (link : Option String)
    (hbase : PlainBase settings.subjectBase.toList) :
    (ofLink settings schema zone link).Settled := by
  unfold ofLink
  split
  · next q hq =>
    have hnormal := normal_carried hq
    refine
      { view := View.sound_ofQuery q _ fun e he => (hnormal.filter e he).2.1
        edit := rfl
        base := ?_
        based := ?_
        filter := fun e he => ⟨(hnormal.filter e he).1, (hnormal.filter e he).2.2⟩
        columns := fun c hc => hnormal.columns c ((mem_distinct _ c).mp hc)
        page := Page.holding_isNumbered _ _ }
    -- A base that was not read is that of the settings.
    · simp only [ofQuery]
      split
      · exact hbase
      · exact hnormal.base
    · simp only [ofQuery]
      split
      · exact settings.subjectBase_ne_empty
      · next hne => exact fun h => hne (String.isEmpty_iff.mpr h)
  · exact
      { view := View.sound_new _
        edit := rfl
        base := hbase
        based := settings.subjectBase_ne_empty
        filter := fun e he => absurd he List.not_mem_nil
        columns := fun c hc => absurd hc List.not_mem_nil
        page := by
          show 0 * settings.pageSize.rows.toNat < 2 ^ 64
          omega }

namespace Settled

variable {s : Session} (hs : s.Settled)

include hs

theorem withColumns (names : List String) (hnames : "" ∉ names) :
    (s.withColumns names).Settled where
  view := hs.view.addColumns names .prepend
  edit := hs.edit
  base := hs.base
  based := hs.based
  filter := hs.filter
  columns := by
    intro c hc
    rcases List.mem_append.mp hc with hc | hc
    · have hmem := (List.mem_filter.mp ((mem_distinct _ c).mp hc)).1
      exact fun h => hnames (h ▸ hmem)
    · exact hs.columns c hc
  page := hs.page

/-- Nothing but the lack of columns keeps a session from having a bookmark. -/
theorem bookmark?_isOk_iff :
    (∃ address, s.view.bookmark? s.addressing = .ok address) ↔ s.view.columns ≠ [] :=
  (View.guarded_of_no_edit hs.edit fun e he p hp _ =>
    ((hs.filter e he).2 p hp).arity).serves.bookmark s.addressing

/-- A bookmark describes the session it was made of, and nothing else does not
    come back but an interval on points in time that closes with a comma. -/
theorem ofLink_bookmark {address : String} (hhome : '?' ∉ s.settings.home.toList)
    (hcomma : ∀ e ∈ s.view.filter.entries, s.schema.isTimestamp e.1 = true →
      ∀ p ∈ e.2, ¬ p.ClosesWithComma)
    (h : s.view.bookmark? s.addressing = .ok address) :
    ofLink s.settings s.schema s.zone (some (deepLink s.settings.home address)) = s := by
  have hwritten := (View.address?_eq_ok_iff _ _ _ _ _).mp h
  -- An empty address would not be taken for one that the link carries.
  have haddress : address ≠ "" := by
    rintro rfl
    have htext := (((s.view.pageSettings s.addressing).address?_eq_ok_iff _ _ _ _).mp hwritten).2.2
    rw [List.append_assoc, List.append_assoc] at htext
    have hfront := (List.append_eq_nil_iff.mp htext.symm).1
    exact hs.based (String.toList_eq_nil_iff.mp (List.append_eq_nil_iff.mp hfront).1)
  have hview := View.ofQuery_bookmark_eq s.settings.pageSize hs.view hs.edit hs.columns hs.base
    (fun e he => ⟨(hs.filter e he).1, fun p hp =>
      ⟨((hs.filter e he).2 p hp).chosen, ((hs.filter e he).2 p hp).keeps.mpr fun hts =>
        hcomma e he hts p hp⟩⟩) hs.page h
  rcases (s.view.pageSettings s.addressing).base_options_written _ _ _ _ hs.base hwritten with
    ⟨hbase, hoptions⟩
  have hlinked :
      (Reading.mk s.schema s.zone).linkedQuery? (deepLink s.settings.home address).toList =
        some (s.addressing.reading.query address.toList) := by
    rw [Reading.linkedQuery?, carriedAddress?_deepLink _ _ hhome haddress]
    rfl
  unfold ofLink
  rw [Option.bind_some, hlinked]
  show ofQuery s.settings s.schema s.zone (s.addressing.reading.query address.toList) = s
  unfold ofQuery
  rw [hview, show (s.addressing.reading.query address.toList).base = s.base from hbase,
    show (s.addressing.reading.query address.toList).options.versions = s.versions by
      rw [show (s.addressing.reading.query address.toList).options = _ from hoptions]; rfl,
    if_neg fun hempty => hs.based (String.isEmpty_iff.mp hempty)]

end Settled

/-- Every opened session is settled if the view's columns have names. -/
theorem Opens.settled {settings : Settings} {zone : Zone} {link : Option String}
    {talk : List (Http.Request × Http.Reply)} {notices : List Notice} {s : Session}
    (h : Opens settings zone link talk notices s) (hbase : PlainBase settings.subjectBase.toList)
    (hnames : ∀ viewing names, viewing <:+ talk →
      Talk (settings.client.viewColumns settings.defaultView) viewing (.done (.ok names)) →
      "" ∉ names) : s.Settled := by
  cases h with
  | linked _ schema _ _ => exact settled_ofLink settings schema zone link hbase
  | viewed loading viewing schema names _ _ hviewing =>
    exact (settled_ofLink settings schema zone link hbase).withColumns names
      (hnames viewing names (List.suffix_append loading viewing) hviewing)

end Session

end TagCatalog
