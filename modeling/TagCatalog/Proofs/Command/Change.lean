import TagCatalog.Command.Basic
import TagCatalog.Proofs.Catalog.Plan
import TagCatalog.Proofs.Catalog.Session

/-!
# What a Change Is Addressed To

Whether a change of tag values meets the subjects that the same link shows.

A link can be shown and it can be changed what it shows, and both address their
requests by the conditions of the link. The conditions are the same text in
both, since they are those of one session. What stands in front of them comes
from two places. Rows are asked for behind the base of the session, which is the
base that the link names, if it names one. A change is always sent to the
catalog of the settings.

So the two meet exactly when the link names no base or that of the settings. A
link of another catalog shows that catalog's rows and changes those of one's own
that happen to meet the same conditions.

## Main definitions

* `Http.Sends`: A conversation that is about one request.
* `RefreshPlan.AskedBy`: A conversation that asks for what a plan says.
* `Command.Changes`: The commands that change the subjects of a view.

## Theorems

* `mutationAddress_inj`: The root of a change.
* `sends_of_send`, `Client.sends_of_request`, `Client.sends_of_change`,
  `Client.askedBy_of_preview`: What the client sends.
* `clause?_eq_ok`, `exists_plan`: The addresses of an opened session.
* `sends_of_changes`, `askedBy_of_preview`: What commands send.
* `change_meets_preview_iff`: When a change is addressed to what is shown.
* `change_misses_preview`: A change that is addressed elsewhere.
-/

namespace TagCatalog

open Exchange Text

/-- Changes with the same conditions and values have the same root if they have
    the same address. -/
theorem mutationAddress_inj (root root' clause tag : String) (values : List String) :
    mutationAddress root clause tag values = mutationAddress root' clause tag values ↔
      root = root' := by
  unfold mutationAddress
  rw [String.append_left_inj, String.append_left_inj, String.append_left_inj]

/-- A conversation that is about one request, as often as it takes. -/
structure Http.Sends (request : Http.Request) (talk : List (Http.Request × Http.Reply)) : Prop where
  sent : talk ≠ []
  only : ∀ x ∈ talk, x.1 = request

open Http

/-- A conversation that asks for what a plan says: for the number of rows, and
    then for the rows, unless there are none or the number is not told. -/
def RefreshPlan.AskedBy (plan : RefreshPlan) (talk : List (Request × Reply)) : Prop :=
  ∃ counting listing, talk = counting ++ listing ∧ Sends ⟨.get, plan.count⟩ counting ∧
    (listing = [] ∨ Sends ⟨.get, plan.rows⟩ listing)

theorem sends_of_send (request : Request) (retries : Nat) (talk : List (Request × Reply))
    (reply : Reply) (h : Talk (send request retries) talk (.done reply)) : Sends request talk := by
  rcases requests_of_send request retries talk reply h with ⟨honly, hlast⟩
  refine ⟨?_, honly⟩
  rintro rfl
  exact absurd hlast (Option.some_ne_none _).symm

namespace Client

variable {c : Client} {method : Method} {url tag : String} {talk : List (Request × Reply)}

theorem sends_of_request {result : Except CatalogError Response}
    (h : Talk (c.request method url) talk (.done result)) : Sends ⟨method, url⟩ talk := by
  rcases talk_map h with ⟨reply, hreply, _⟩
  exact sends_of_send _ _ talk reply hreply

theorem sends_of_change {result : Except CatalogError Unit}
    (h : Talk (c.change method url) talk (.done result)) : Sends ⟨method, url⟩ talk := by
  rcases talk_map h with ⟨_, hrequest, _⟩
  exact sends_of_request hrequest

theorem sends_of_rows {result : Except CatalogError (List Row)}
    (h : Talk (c.rows url) talk (.done result)) : Sends ⟨.get, url⟩ talk := by
  rcases talk_map h with ⟨_, hrequest, _⟩
  exact sends_of_request hrequest

theorem sends_of_count {result : Except CatalogError UInt64}
    (h : Talk (c.count url tag) talk (.done result)) : Sends ⟨.get, url⟩ talk := by
  rcases talk_map h with ⟨_, hrows, _⟩
  exact sends_of_rows hrows

theorem askedBy_of_preview {plan : RefreshPlan} {result : Except CatalogError Preview}
    (h : Talk (c.preview plan) talk (.done result)) : plan.AskedBy talk := by
  rcases talk_bind h with ⟨count, counting, listing, rfl, hcounting, hlisting⟩
  refine ⟨counting, listing, rfl, sends_of_count hcounting, ?_⟩
  -- Rows are only asked for if there are any.
  cases count with
  | error e => exact Or.inl (talk_done hlisting).1
  | ok total =>
    by_cases htotal : total = 0
    · simp only [htotal, if_true] at hlisting
      exact Or.inl (talk_done hlisting).1
    · simp only [htotal, if_false] at hlisting
      rcases talk_map hlisting with ⟨_, hrows, _⟩
      exact Or.inr (sends_of_rows hrows)

/-- The first refresh is not skipped. -/
theorem askedBy_of_refresh {v : View} {a : Addressing} {force : Bool} {plan : RefreshPlan}
    {result : Refresher × Except CatalogError (Option Preview)}
    (hplan : v.refreshPlan? a = .ok plan)
    (h : Talk (c.refresh {} v a force) talk (.done result)) : plan.AskedBy talk := by
  have hissued : ∃ r, Refresher.issue {} plan.rows force = some r := by
    unfold Refresher.issue Refresher.isCurrent
    simp
  rcases hissued with ⟨r, hissued⟩
  unfold refresh at h
  simp only [hplan, hissued] at h
  rcases talk_map h with ⟨_, hpreview, _⟩
  exact askedBy_of_preview hpreview

end Client

namespace Command

/-- The commands that change tag values of the subjects of a view, with what they
    send. -/
inductive Changes : Command → Method → String → List String → Option String → Prop
  | setTag (tag : String) (values : List String) (link : Option String) :
    Changes (.setTag tag values link []) .put tag values link
  | deleteTag (tag : String) (values : List String) (link : Option String) :
    Changes (.deleteTag tag values link []) .delete tag values link

section Addresses

variable {settings : Settings} {zone : Zone} {link : Option String}
  {talk : List (Request × Reply)} {notices : List Notice} {s : Session}

/-- The clause of an opened session can be written. -/
theorem clause?_eq_ok (h : Session.Opens settings zone link talk notices s) :
    s.clause? = .ok (String.ofList (s.addressing.clauseText s.view.filter)) := by
  have hedit := h.described.2.2
  have hexcluded : s.addressing.excluded = s.view.editing := by
    rw [View.editing, hedit]
    rfl
  have harity := (View.guarded_of_no_edit hedit h.writable).hasValidArity hexcluded
  rw [Session.clause?, (s.addressing.clause?_eq_ok_iff s.view.filter _).mpr ⟨rfl, harity⟩]

/-- What an opened session asks for to be shown begins with its base and its
    clause, whatever columns and page are shown. -/
theorem exists_plan (h : Session.Opens settings zone link talk notices s) (v : View)
    (hfilter : v.filter = s.view.filter) (hedit : v.edit = none) :
    ∃ plan, v.refreshPlan? s.addressing = .ok plan ∧
      (∃ tail, plan.count =
        s.base ++ String.ofList (s.addressing.clauseText s.view.filter) ++ "(id)" ++ tail) ∧
      ∃ columns tail, plan.rows = s.base ++
        String.ofList (s.addressing.clauseText s.view.filter) ++ "(" ++ columns ++ ")" ++ tail := by
  have hserves := (View.guarded_of_no_edit hedit (hfilter ▸ h.writable)).serves
  rcases hserves.rows s.addressing with ⟨rows, hrows⟩
  rcases hserves.count s.addressing with ⟨count, hcount⟩
  -- Without an edit nothing is left out of the clause.
  have hsettings : v.settings s.addressing = s.addressing := by
    rw [View.settings, View.editing, hedit]
    rfl
  have hclause : (v.pageSettings s.addressing).clauseText v.filter =
      s.addressing.clauseText s.view.filter := by
    rw [← hfilter]
    show (v.settings s.addressing).clauseText v.filter = s.addressing.clauseText v.filter
    rw [hsettings]
  have hcounted := ((View.count?_eq_ok_iff _ _ _).mp hcount).2
  have hlisted : ∃ shown, rows.toList = s.base.toList ++ s.addressing.clauseText s.view.filter ++
      '(' :: shown ++ ')' :: joinWith ',' (v.sort.map SortKey.item) ++
        (v.pageSettings s.addressing).options.tail := by
    rw [← hclause]
    exact ⟨_, ((Addressing.address?_eq_ok_iff _ _ _ _ _).mp
      ((View.address?_eq_ok_iff _ _ _ _ _).mp hrows)).2.2⟩
  rcases hlisted with ⟨shown, hlisted⟩
  rw [hsettings, hfilter] at hcounted
  refine ⟨⟨rows, count⟩, (Race.refreshPlan?_eq_ok_iff _ _ _).mpr ⟨hrows, hcount⟩,
    ⟨String.ofList ({ versions := s.versions, range := some .count } : Options).tail, ?_⟩,
    String.ofList shown, String.ofList (joinWith ',' (v.sort.map SortKey.item) ++
      (v.pageSettings s.addressing).options.tail), ?_⟩
  · rw [← String.toList_inj, hcounted]
    simp only [Addressing.front, String.toList_append, String.toList_ofList, List.append_assoc]
    rfl
  · rw [← String.toList_inj, hlisted]
    simp only [String.toList_append, String.toList_ofList, List.append_assoc, List.cons_append]
    rfl

end Addresses

section Requests

variable {settings : Settings} {zone : Zone} {command : Command} {method : Method} {tag : String}
  {values : List String} {link : Option String} {s : Session} {told told' : List Notice}
  {opening talk : List (Request × Reply)}

/-- Once a session is open, a change is sent to the catalog of the settings. -/
theorem sends_of_changes (hcommand : Changes command method tag values link)
    (hopened : Talk (Session.start settings zone link) opening (.done ⟨told, .ok s⟩))
    (result : Except CatalogError String)
    (h : Talk (command.activity settings zone) (opening ++ talk) (.done ⟨told', result⟩)) :
    Sends ⟨method, mutationAddress settings.home
      (String.ofList (s.addressing.clauseText s.view.filter)) tag values⟩ talk := by
  have hclause : target s [] = .ok (String.ofList (s.addressing.clauseText s.view.filter)) :=
    clause?_eq_ok (Session.talk_start_iff.mp hopened)
  -- Both commands know their clause, and nothing is asked behind the change.
  have hchange : ∀ (change : String → Call (Except CatalogError Unit)) (notice : String → Notice),
      Talk ((Session.start settings zone link).andThen fun s => changeOf s [] change notice)
        (opening ++ talk) (.done ⟨told', result⟩) →
      ∃ found, Talk (change (String.ofList (s.addressing.clauseText s.view.filter))) talk
        (.done found) := by
    intro change notice hrun
    rcases Activity.talk_of_andThen hopened hrun with ⟨_, hrest⟩
    rw [changeOf, hclause] at hrest
    rcases Activity.talk_of_andThen (Talk.nil _) hrest with ⟨_, hrest⟩
    exact Activity.talk_of_quiet_andThen (fun _ => ⟨_, rfl⟩) hrest
  cases hcommand with
  | setTag =>
    rcases hchange _ _ h with ⟨_, hsent⟩
    exact Client.sends_of_change hsent
  | deleteTag =>
    rcases hchange _ _ h with ⟨_, hsent⟩
    exact Client.sends_of_change hsent

/-- Once a session is open, a preview asks for what the plan of its view says. -/
theorem askedBy_of_preview {page : Option UInt64} {force : Bool}
    (hopened : Talk (Session.start settings zone link) opening (.done ⟨told, .ok s⟩))
    (result : Except CatalogError String)
    (h : Talk ((Command.preview link page force).activity settings zone) (opening ++ talk)
      (.done ⟨told', result⟩)) :
    ∃ plan : RefreshPlan, plan.AskedBy talk ∧
      (∃ tail, plan.count =
        s.base ++ String.ofList (s.addressing.clauseText s.view.filter) ++ "(id)" ++ tail) ∧
      ∃ columns tail, plan.rows = s.base ++
        String.ofList (s.addressing.clauseText s.view.filter) ++ "(" ++ columns ++ ")" ++ tail := by
  have hopens := Session.talk_start_iff.mp hopened
  rcases Activity.talk_of_andThen hopened h with ⟨_, hshown⟩
  rcases Activity.talk_of_quiet_andThen (fun found => by cases found <;> exact ⟨_, rfl⟩) hshown with
    ⟨_, hfound⟩
  -- The page is chosen by the person, but the conditions are those of the session.
  have hrefresh : ∃ (v : View) (found : Refresher × Except CatalogError (Option Preview)),
      v.filter = s.view.filter ∧ v.edit = none ∧
        Talk (s.settings.client.refresh {} v s.addressing force) talk (.done found) := by
    rcases talk_map hfound with ⟨found, hrefresh, _⟩
    cases page with
    | none => exact ⟨s.view, found, rfl, hopens.described.2.2, hrefresh⟩
    | some index =>
      exact ⟨{ s.view with page := { s.view.page with index } }, found, rfl, hopens.described.2.2,
        hrefresh⟩
  rcases hrefresh with ⟨v, found, hfilter, hedit, hrefresh⟩
  rcases exists_plan hopens v hfilter hedit with ⟨plan, hplan, haddresses⟩
  exact ⟨plan, Client.askedBy_of_refresh hplan hrefresh, haddresses⟩

end Requests

/-- A change is addressed to the subjects that the same link shows, with one root
    and one clause for both, exactly when the link names no base or that of the
    settings. -/
theorem change_meets_preview_iff {settings : Settings} {zone : Zone} {command : Command}
    {method : Method} {tag : String} {values : List String} {link : Option String}
    {page : Option UInt64} {force : Bool} {s s' : Session} {told told' : List Notice}
    {opening changing opening' showing : List (Request × Reply)} {report report' : Report String}
    (hcommand : Changes command method tag values link) (hschema : s'.schema = s.schema)
    (hopened : Talk (Session.start settings zone link) opening (.done ⟨told, .ok s⟩))
    (hchange : Talk (command.activity settings zone) (opening ++ changing) (.done report))
    (hopened' : Talk (Session.start settings zone link) opening' (.done ⟨told', .ok s'⟩))
    (hshow : Talk ((Command.preview link page force).activity settings zone) (opening' ++ showing)
      (.done report')) :
    ∃ (plan : RefreshPlan) (clause : String), s.clause? = .ok clause ∧
      Sends ⟨method, mutationAddress settings.home clause tag values⟩ changing ∧
      plan.AskedBy showing ∧
      (∃ tail, plan.count = s.base ++ clause ++ "(id)" ++ tail) ∧
      (∃ columns tail, plan.rows = s.base ++ clause ++ "(" ++ columns ++ ")" ++ tail) ∧
      ((∃ root, mutationAddress settings.home clause tag values =
          mutationAddress root clause tag values ∧ s.base = root ++ "/subject/") ↔
        ∀ q, Session.carried? s.schema zone link = some q →
          q.base = "" ∨ q.base = settings.subjectBase) := by
  have hopens := Session.talk_start_iff.mp hopened
  have hopens' := Session.talk_start_iff.mp hopened'
  -- With one schema, both sessions have one base and one clause.
  have haddressing : s'.addressing = s.addressing := by
    rw [hopens.described.1, hopens'.described.1, hschema]
  have hfilter : s'.view.filter = s.view.filter := by
    rw [hopens.described.2.1, hopens'.described.2.1, hschema]
  have hbase : s'.base = s.base := congrArg Addressing.base haddressing
  have hsent := sends_of_changes hcommand hopened report.result hchange
  rcases askedBy_of_preview hopened' report'.result hshow with ⟨plan, hasked, hcount, hrows⟩
  rw [hbase, haddressing, hfilter] at hcount hrows
  refine ⟨plan, _, clause?_eq_ok hopens, hsent, hasked, hcount, hrows, ?_⟩
  -- What is left is a question of the base that the link describes.
  have hdescribed : s.base = (Session.ofLink settings s.schema zone link).base :=
    congrArg Addressing.base hopens.described.1
  rw [← Session.ofLink_base_eq_iff, ← hdescribed]
  constructor
  · rintro ⟨root, hroot, hbase⟩
    rw [hbase, ← (mutationAddress_inj _ _ _ _ _).mp hroot]
    rfl
  · exact fun hbase => ⟨settings.home, rfl, hbase⟩

/-- A link that names no base is changed where it is shown. -/
theorem change_meets_preview_own :
    let settings : Settings := { url := "http://h", retries := 0 }
    let link := some "query=x=1;y(name)%3Fversions=any"
    let opening : List (Request × Reply) :=
      [(⟨.get, schemaAddress settings.home⟩, .response ⟨200, "[]", []⟩)]
    let changing : List (Request × Reply) :=
      [(⟨.delete, "http://h/tags/x=1;y(size)"⟩, .response ⟨204, "", []⟩)]
    let count := "http://h/subject/x=1;y(id)?versions=any&range=count"
    let showing : List (Request × Reply) := [(⟨.get, count⟩, .response ⟨404, "", []⟩)]
    Talk ((Command.deleteTag "size" [] link []).activity settings .utc) (opening ++ changing)
        (.done ⟨[.valuesRemoved "size" "x=1;y"], .ok ""⟩) ∧
      Talk ((Command.preview link none false).activity settings .utc) (opening ++ showing)
        (.done ⟨[], .error (.status count 404 "" none)⟩) ∧
      ∃ (plan : RefreshPlan) (clause root : String),
        Sends ⟨.delete, mutationAddress root clause "size" []⟩ changing ∧ plan.AskedBy showing ∧
          ∃ tail, plan.count = root ++ "/subject/" ++ clause ++ "(id)" ++ tail := by
  intro settings link opening changing count showing
  have hchange : Talk ((Command.deleteTag "size" [] link []).activity settings .utc)
      (opening ++ changing) (.done ⟨[.valuesRemoved "size" "x=1;y"], .ok ""⟩) := by
    decide +kernel
  have hshow : Talk ((Command.preview link none false).activity settings .utc)
      (opening ++ showing) (.done ⟨[], .error (.status count 404 "" none)⟩) := by
    decide +kernel
  have hschema : Talk settings.client.schema opening (.done (.ok .empty)) := by
    decide +kernel
  have hcolumns : (Session.ofLink settings .empty .utc link).view.columns ≠ [] := by
    decide +kernel
  have hopened := Session.talk_start_iff.mpr (.linked opening .empty hschema hcolumns)
  refine ⟨hchange, hshow, ?_⟩
  rcases change_meets_preview_iff (.deleteTag "size" [] link) rfl hopened hchange hopened hshow with
    ⟨plan, clause, _, hsent, hasked, ⟨tail, hcount⟩, _, hiff⟩
  rcases hiff.mpr (by decide +kernel) with ⟨root, hroot, hbase⟩
  rw [hroot] at hsent
  rw [hbase] at hcount
  exact ⟨plan, clause, root, hsent, hasked, tail, hcount⟩

/-- A link of another catalog shows its subjects and changes one's own. -/
theorem change_misses_preview :
    let settings : Settings := { url := "http://h", retries := 0 }
    let link := some "query=http://g/subject/x=1(name)"
    let opening : List (Request × Reply) :=
      [(⟨.get, schemaAddress settings.home⟩, .response ⟨200, "[]", []⟩)]
    let change := "http://h/tags/x=1(size=2)"
    let count := "http://g/subject/x=1(id)?versions=latest&range=count"
    Talk ((Command.setTag "size" ["2"] link []).activity settings .utc)
        (opening ++ [(⟨.put, change⟩, .response ⟨204, "", []⟩)])
        (.done ⟨[.valuesSet "size" "x=1"], .ok ""⟩) ∧
      Talk ((Command.preview link none false).activity settings .utc)
        (opening ++ [(⟨.get, count⟩, .response ⟨404, "", []⟩)])
        (.done ⟨[], .error (.status count 404 "" none)⟩) ∧
      ¬ ∃ root clause assignment tail, change = root ++ "/tags/" ++ clause ++ assignment ∧
        count = root ++ "/subject/" ++ clause ++ "(id)" ++ tail := by
  intro settings link opening change count
  refine ⟨by decide +kernel, by decide +kernel, ?_⟩
  rintro ⟨root, clause, assignment, tail, hchange, hcount⟩
  have htags : root.toList ++ "/tags/".toList <+: change.toList := by
    rw [hchange]
    simp only [String.toList_append, List.append_assoc]
    exact ⟨clause.toList ++ assignment.toList, List.append_assoc _ _ _⟩
  have hsubjects : root.toList ++ "/subject/".toList <+: count.toList := by
    rw [hcount]
    simp only [String.toList_append, List.append_assoc]
    exact ⟨clause.toList ++ ("(id)".toList ++ tail.toList), List.append_assoc _ _ _⟩
  -- The root is one of the beginnings of the address.
  have hbeginning : root.toList <+: change.toList := (List.prefix_append _ _).trans htags
  have hnone : ∀ n ≤ change.toList.length,
      ¬ (change.toList.take n ++ "/tags/".toList <+: change.toList ∧
        change.toList.take n ++ "/subject/".toList <+: count.toList) := by
    decide +kernel
  refine hnone root.toList.length hbeginning.length_le ?_
  rw [← List.prefix_iff_eq_take.mp hbeginning]
  exact ⟨htags, hsubjects⟩

end Command

end TagCatalog
