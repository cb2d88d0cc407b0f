import TagCatalog.Command.Basic
import TagCatalog.Proofs.Catalog.Session

/-!
# Printed Links

What happens when a link that was printed is opened again.

Printing a link takes no request beyond those that open the session, so what is
printed is a matter of the session alone. A settled session has a bookmark as
long as it shows a column, and the bookmark describes the session itself. So
opening what was printed leads to the same session, and the same is printed
again. Whatever was unclear about the first link has been decided by then.

The second opening asks less than the first one may have. A session with a
bookmark shows a column, and the bookmark names it, so the settings' view is not
asked for.

## Theorems

* `linkTo_eq_ok_iff`, `linkTo_eq_error`: When there is a link to a session.
* `talk_link_iff`: Conversations that print a link.
* `printed_link_reopens`: What is printed opens the same session and is printed
  again.
-/

namespace TagCatalog

open Exchange

namespace Command

theorem linkTo_eq_ok_iff (s : Session) (output : String) :
    linkTo s = .ok output ↔ ∃ address, s.view.bookmark? s.addressing = .ok address ∧
      output = deepLink s.settings.home address ++ "\n" := by
  unfold linkTo
  cases s.view.bookmark? s.addressing with
  | error e => exact iff_of_false (fun h => nomatch h) fun ⟨_, h, _⟩ => nomatch h
  | ok address =>
    simp only [Except.ok.injEq, exists_eq_left']
    exact eq_comm

/-- If there is no link to a settled session then it shows no column. -/
theorem linkTo_eq_error {s : Session} (hs : s.Settled) (e : CatalogError)
    (h : linkTo s = .error e) :
    s.view.columns = [] ∧ e = .view (.address .noColumns) := by
  by_cases hcolumns : s.view.columns = []
  · refine ⟨hcolumns, ?_⟩
    have hbookmark : s.view.bookmark? s.addressing = .error (.address .noColumns) := by
      unfold View.bookmark? View.address? Addressing.address?
      rw [hcolumns]
      rfl
    rw [linkTo, hbookmark] at h
    exact (Except.error.inj h).symm
  · rcases hs.bookmark?_isOk_iff.mpr hcolumns with ⟨address, hbookmark⟩
    rw [linkTo, hbookmark] at h
    exact nomatch h

variable {settings : Settings} {zone : Zone} {talk : List (Http.Request × Http.Reply)}

/-- A link is printed without another request once a session is open. -/
theorem talk_link_iff (link : Option String) (report : Report String) :
    Talk ((Command.link link).activity settings zone) talk (.done report) ↔
      (∃ e, report.result = .error e ∧
        Talk (Session.start settings zone link) talk (.done ⟨report.notices, .error e⟩)) ∨
      ∃ s, report.result = linkTo s ∧
        Talk (Session.start settings zone link) talk (.done ⟨report.notices, .ok s⟩) := by
  show Talk ((Session.start settings zone link).andThen fun s => .known (linkTo s)) talk
    (.done ⟨report.notices, report.result⟩) ↔ _
  rw [Activity.talk_andThen_iff]
  refine or_congr_right ⟨?_, ?_⟩
  · rintro ⟨s, first, second, told, told', htalk, hnotices, hstart, hknown⟩
    rcases (Activity.talk_known_iff _ _).mp hknown with ⟨rfl, rfl, hresult⟩
    rw [List.append_nil] at htalk hnotices
    exact ⟨s, hresult, htalk ▸ hnotices ▸ hstart⟩
  · rintro ⟨s, hresult, hstart⟩
    exact ⟨s, talk, [], report.notices, [], (List.append_nil _).symm, (List.append_nil _).symm,
      hstart, (Activity.talk_known_iff _ _).mpr ⟨rfl, rfl, hresult⟩⟩

/-- What is printed for any link opens the session that the link opened, without
    asking for a view, and is printed again. Once a session is open, nothing is
    printed only if neither the link nor the view that was asked for gave a
    column. -/
theorem printed_link_reopens (link : Option String) (report : Report String)
    (hhome : '?' ∉ settings.home.toList ∧ '(' ∉ settings.home.toList)
    (hnames : ∀ viewing names, viewing <:+ talk →
      Talk (settings.client.viewColumns settings.defaultView) viewing (.done (.ok names)) →
      "" ∉ names)
    (hrun : Talk ((Command.link link).activity settings zone) talk (.done report)) :
    (∀ output, report.result = .ok output → ∃ bookmark s, output = bookmark ++ "\n" ∧
      Talk (Session.start settings zone link) talk (.done ⟨report.notices, .ok s⟩) ∧
      (∃ loading, loading <+: talk ∧ Talk settings.client.schema loading (.done (.ok s.schema))) ∧
      ((∀ q, Session.carried? s.schema zone link = some q → ∀ e ∈ q.filter.entries,
          s.schema.isTimestamp e.1 = true → ∀ p ∈ e.2, ¬ p.ClosesWithComma) →
        ∀ loading, Talk settings.client.schema loading (.done (.ok s.schema)) →
          Talk (Session.start settings zone (some bookmark)) loading (.done ⟨[], .ok s⟩) ∧
          Talk ((Command.link (some bookmark)).activity settings zone) loading
            (.done ⟨[], .ok (bookmark ++ "\n")⟩))) ∧
    ∀ s, Talk (Session.start settings zone link) talk (.done ⟨report.notices, .ok s⟩) →
      ∀ e, report.result = .error e → e = .view (.address .noColumns) ∧
        (∀ q, Session.carried? s.schema zone link = some q → q.columns = []) ∧
        ∃ viewing, viewing <:+ talk ∧
          Talk (settings.client.viewColumns settings.defaultView) viewing (.done (.ok [])) := by
  have hbase := settings.plainBase_subjectBase hhome.1 hhome.2
  rw [talk_link_iff] at hrun
  constructor
  · intro output houtput
    rcases hrun with ⟨e, he, _⟩ | ⟨s, hresult, hstart⟩
    · rw [he] at houtput
      exact nomatch houtput
    · have hopens := Session.talk_start_iff.mp hstart
      have hsettled := hopens.settled hbase hnames
      rw [hresult] at houtput
      rcases (linkTo_eq_ok_iff s output).mp houtput with ⟨address, hbookmark, hprinted⟩
      rcases hopens.settings_zone with ⟨rfl, rfl⟩
      refine ⟨_, s, hprinted, hstart, hopens.schema_loaded, fun hcomma loading hloading => ?_⟩
      -- The bookmark describes the session, which shows a column.
      have hsame := hsettled.ofLink_bookmark hhome.1 (fun e he hts p hp => by
        rcases hopens.filter_carried e he with ⟨q, hq, hmem⟩
        exact hcomma q hq e hmem hts p hp) hbookmark
      have hcolumns := hsettled.bookmark?_isOk_iff.mp ⟨address, hbookmark⟩
      have hagain : Talk (Session.start s.settings s.zone (some (deepLink s.settings.home address)))
          loading (.done ⟨[], .ok s⟩) := by
        rw [Session.talk_start_iff]
        have hlinked := Session.Opens.linked loading s.schema hloading (hsame.symm ▸ hcolumns)
        rw [hsame] at hlinked
        exact hlinked
      refine ⟨hagain, (talk_link_iff _ _).mpr (Or.inr ⟨s, ?_, hagain⟩)⟩
      exact ((linkTo_eq_ok_iff s _).mpr ⟨address, hbookmark, rfl⟩).symm
  · intro s hstart e he
    -- The conversation decides which session it opens.
    have hlink : linkTo s = .error e := by
      rcases hrun with ⟨_, _, hfailed⟩ | ⟨_, hresult, hstart'⟩
      · exact nomatch congrArg Report.result (talk_result_unique hstart hfailed)
      · have hsame := congrArg Report.result (talk_result_unique hstart hstart')
        rw [Except.ok.inj hsame, ← hresult, he]
    have hopens := Session.talk_start_iff.mp hstart
    rcases linkTo_eq_error (hopens.settled hbase hnames) e hlink with ⟨hcolumns, herror⟩
    exact ⟨herror, hopens.no_columns hcolumns⟩

/-- A link that only names an interval is completed by the zone, the base, the
    view's columns and a page, and then stays as it is. -/
theorem printed_link_reopens_partial :
    let settings : Settings := { url := "http://h/", retries := 0 }
    let zone : Zone := ⟨-28800, by decide⟩
    let loading : List (Http.Request × Http.Reply) :=
      [(⟨.get, schemaAddress settings.home⟩,
        .response ⟨200, "[[\"when\", \"timestamptz\", false, false]]", []⟩)]
    let viewing : List (Http.Request × Http.Reply) :=
      [(⟨.get, viewAddress settings.home "default"⟩,
        .response ⟨200, "[[[\"name\", \"when\"]]]", []⟩)]
    let bookmark := deepLink settings.home (settings.subjectBase ++
      "when=%281-08%3A00%2C2-08%3A00%29(name;when)?versions=latest&limit=25&offset=0")
    Talk ((Command.link (some "query=when%3D%25281%252C2%2529")).activity settings zone)
        (loading ++ viewing) (.done ⟨[.openingView "default"], .ok (bookmark ++ "\n")⟩) ∧
      Talk ((Command.link (some bookmark)).activity settings zone) loading
        (.done ⟨[], .ok (bookmark ++ "\n")⟩) := by
  intro settings zone loading viewing bookmark
  have hrun : Talk ((Command.link (some "query=when%3D%25281%252C2%2529")).activity settings zone)
      (loading ++ viewing) (.done ⟨[.openingView "default"], .ok (bookmark ++ "\n")⟩) := by
    decide +kernel
  have hloading : Talk settings.client.schema loading
      (.done (.ok (.ofList [("when", { type := .timestamp })]))) := by
    decide +kernel
  have hviewing : Talk (settings.client.viewColumns settings.defaultView) viewing
      (.done (.ok ["name", "when"])) := by
    decide +kernel
  -- No other part of the conversation is one about the view.
  have hnames : ∀ talk names, talk <:+ loading ++ viewing →
      Talk (settings.client.viewColumns settings.defaultView) talk (.done (.ok names)) →
      "" ∉ names := by
    intro talk names hsuffix htalk
    rcases List.suffix_cons_iff.mp hsuffix with rfl | hsuffix
    · have hother :
          (settings.client.viewColumns settings.defaultView).ending? (loading ++ viewing) =
            none := by
        decide +kernel
      exact absurd ((talk_iff_ending?.mp htalk).symm.trans hother) (Option.some_ne_none _)
    · rcases List.suffix_cons_iff.mp hsuffix with rfl | hsuffix
      · rw [← Except.ok.inj (talk_result_unique hviewing htalk)]
        decide
      · rw [List.suffix_nil.mp hsuffix] at htalk
        exact nomatch talk_iff_ending?.mp htalk
  refine ⟨hrun, ?_⟩
  rcases (printed_link_reopens _ _ (by decide) hnames hrun).1 _ rfl with
    ⟨printed, s, hprinted, _, ⟨first, ⟨rest, hfirst⟩, hschema⟩, hagain⟩
  rcases talk_unique hschema hloading hfirst with ⟨rfl, hs⟩
  rw [Except.ok.injEq] at hs
  have hcarried : (Session.carried? s.schema zone (some "query=when%3D%25281%252C2%2529")).map
      (fun q => q.filter.entries) = some [("when", [.between "1" "2"])] := by
    rw [hs]
    decide +kernel
  rw [(String.append_left_inj "\n").mp hprinted]
  refine (hagain ?_ loading hschema).2
  intro q hq e he _ p hp
  rw [hq, Option.map_some, Option.some.injEq] at hcarried
  rw [hcarried, List.mem_singleton] at he
  subst he
  rw [List.mem_singleton] at hp
  subst hp
  rw [Predicate.closesWithComma_between]
  decide

end Command

end TagCatalog
