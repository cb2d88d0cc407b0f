import TagCatalog.Catalog.Refresh
import TagCatalog.Proofs.Catalog.Retry

/-!
# What a Preview Is Made Of

Where the number and the rows of a preview come from.

A refresh asks two questions, and each may take several requests because a
request is sent again while the server has no time for it. So what belongs to a
question is a stretch of the conversation: requests for one address, of which
the last reply is the one that counts. `Asked` says that of a stretch.

`Preview.MadeFrom` puts two stretches together. The first one is for the number
of rows. The second one is for the rows, unless there are none, and then the
conversation is over. `madeFrom_of_talk` says that every preview is made this
way from the conversation of its own refresh, whatever the server replied.

## Main definitions

* `Http.Asked`: Requests for one address, with the reply that counts.
* `Http.Reply.Holds`: A reply is a response of success that holds rows.
* `Preview.MadeFrom`: A preview is made from a conversation.

## Theorems

* `requests_of_send`, `asked_of_send`: A request that is sent until there is an
  answer that counts.
* `asked_of_request`, `asked_of_rows`, `asked_of_count`: The same for a request
  that has to succeed, for rows and for a number of rows.
* `madeFrom_of_talk`: A preview is made from the conversation of its refresh.
-/

namespace TagCatalog

open Exchange Json

namespace Http

/-- Requests for one address, as many as it took, and the reply to the last of
    them. -/
structure Asked (url : String) (talk : List (Request × Reply)) (reply : Reply) : Prop where
  requests : ∀ x ∈ talk, x.1 = ⟨.get, url⟩
  last : talk.getLast? = some (⟨.get, url⟩, reply)

/-- A reply is a response of success that holds rows. -/
def Reply.Holds (reply : Reply) (rows : List Row) : Prop :=
  ∃ r, reply = .response r ∧ (200 ≤ r.status ∧ r.status < 300) ∧
    (Document.parse? r.body.toList).bind Row.rowsOfDocument? = some rows

/-- A request is the same each time it is sent, so only the last reply depends on
    how often that was. -/
theorem requests_of_send (request : Request) (retries : Nat) (talk : List (Request × Reply))
    (reply : Reply) (h : Talk (send request retries) talk (.done reply)) :
    (∀ x ∈ talk, x.1 = request) ∧ talk.getLast? = some (request, reply) := by
  rcases (talk_send_iff request retries talk reply).mp h with ⟨waiting, _, rfl⟩
  refine ⟨fun x hx => ?_, ?_⟩
  · rcases List.mem_map.mp hx with ⟨r, _, rfl⟩
    rfl
  · rw [List.map_append, List.map_singleton, List.getLast?_concat]

theorem asked_of_send (url : String) (retries : Nat) (talk : List (Request × Reply)) (reply : Reply)
    (h : Talk (send ⟨.get, url⟩ retries) talk (.done reply)) : Asked url talk reply := by
  rcases requests_of_send _ retries talk reply h with ⟨hrequests, hlast⟩
  exact ⟨hrequests, hlast⟩

theorem success_eq_ok_iff (reply : Reply) (url : String) (r : Response) :
    reply.success url = .ok r ↔ reply = .response r ∧ 200 ≤ r.status ∧ r.status < 300 := by
  cases reply with
  | unanswered reason => exact iff_of_false (fun h => nomatch h) fun h => nomatch h.1
  | response s =>
    rw [← outcome_iff, Reply.response.injEq]
    constructor
    · intro h
      cases h with
      | success h => exact ⟨rfl, h⟩
    · rintro ⟨rfl, h⟩
      exact .success h

end Http

open Http

namespace Client

variable {c : Client} {url : String} {talk : List (Request × Reply)}

theorem asked_of_request {result : Except CatalogError Response}
    (h : Talk (c.request .get url) talk (.done result)) :
    ∃ reply, Asked url talk reply ∧ result = reply.success url := by
  rcases talk_bind h with ⟨reply, first, second, rfl, hfirst, hsecond⟩
  rcases talk_done hsecond with ⟨rfl, hresult⟩
  rw [List.append_nil]
  exact ⟨reply, asked_of_send url c.retries first reply hfirst, hresult.symm⟩

/-- Rows come from the response to the last request for their address. -/
theorem asked_of_rows {rows : List Row} (h : Talk (c.rows url) talk (.done (.ok rows))) :
    ∃ reply, Asked url talk reply ∧ reply.Holds rows := by
  rcases talk_bind h with ⟨result, first, second, rfl, hfirst, hsecond⟩
  rcases talk_done hsecond with ⟨rfl, hresult⟩
  rcases asked_of_request hfirst with ⟨reply, hasked, hreply⟩
  rw [List.append_nil]
  refine ⟨reply, hasked, ?_⟩
  cases hr : result with
  | error e =>
    rw [hr] at hresult
    exact nomatch hresult
  | ok r =>
    rw [hr] at hresult hreply
    rcases (success_eq_ok_iff reply url r).mp hreply.symm with ⟨hresponse, hstatus⟩
    refine ⟨r, hresponse, hstatus, ?_⟩
    simp only [Except.bind] at hresult
    split at hresult
    · next held hheld =>
      rw [hheld, Except.ok.inj hresult]
    · exact nomatch hresult

/-- A number of rows comes from the response to the last request for its
    address. -/
theorem asked_of_count {tag : String} {total : UInt64}
    (h : Talk (c.count url tag) talk (.done (.ok total))) :
    ∃ reply rows, Asked url talk reply ∧ reply.Holds rows ∧ Row.countOf? rows tag = some total := by
  rcases talk_bind h with ⟨result, first, second, rfl, hfirst, hsecond⟩
  rcases talk_done hsecond with ⟨rfl, hresult⟩
  rw [List.append_nil]
  cases hr : result with
  | error e =>
    rw [hr] at hresult
    exact nomatch hresult
  | ok rows =>
    rw [hr] at hresult hfirst
    rcases asked_of_rows hfirst with ⟨reply, hasked, hholds⟩
    refine ⟨reply, rows, hasked, hholds, ?_⟩
    simp only [Except.bind] at hresult
    split at hresult
    · next n hn =>
      rw [hn, Except.ok.inj hresult]
    · exact nomatch hresult

end Client

/-- A preview is made from a conversation: it names the address of the rows,
    the first requests are for their number and give it, and the other ones are
    for the rows and give them. Without rows there are no other ones. -/
structure Preview.MadeFrom (preview : Preview) (plan : RefreshPlan)
    (talk : List (Request × Reply)) : Prop where
  url : preview.url = plan.rows
  parts : ∃ counting listing, talk = counting ++ listing ∧
    (∃ reply rows, Asked plan.count counting reply ∧ reply.Holds rows ∧
      Row.countOf? rows View.idColumn = some preview.total) ∧
    if preview.total = 0 then listing = [] ∧ preview.rows = []
    else ∃ reply, Asked plan.rows listing reply ∧ reply.Holds preview.rows

/-- A preview is made from the conversation of its refresh. -/
theorem Preview.madeFrom_of_talk (c : Client) (plan : RefreshPlan) (talk : List (Request × Reply))
    (preview : Preview) (h : Talk (c.preview plan) talk (.done (.ok preview))) :
    preview.MadeFrom plan talk := by
  rcases talk_bind h with ⟨count, counting, listing, rfl, hcounting, hlisting⟩
  cases count with
  | error e =>
    rcases talk_done hlisting with ⟨_, hresult⟩
    exact nomatch hresult
  | ok total =>
    have hcount := Client.asked_of_count hcounting
    by_cases htotal : total = 0
    · simp only [htotal, if_true] at hlisting
      rcases talk_done hlisting with ⟨rfl, hresult⟩
      rw [Except.ok.injEq] at hresult
      subst hresult
      exact ⟨rfl, counting, [], rfl, htotal ▸ hcount, by rw [if_pos rfl]; exact ⟨rfl, rfl⟩⟩
    · simp only [htotal, if_false] at hlisting
      rcases talk_bind hlisting with ⟨result, listing, nothing, rfl, hrows, hnothing⟩
      rcases talk_done hnothing with ⟨rfl, hresult⟩
      cases result with
      | error e => exact nomatch hresult
      | ok rows =>
        rw [Except.map, Except.ok.injEq] at hresult
        subst hresult
        rw [List.append_nil]
        exact ⟨rfl, counting, listing, rfl, hcount, by
          rw [if_neg htotal]; exact Client.asked_of_rows hrows⟩

end TagCatalog
