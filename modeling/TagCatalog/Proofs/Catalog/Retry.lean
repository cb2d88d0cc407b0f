import Mathlib.Data.List.TakeWhile
import TagCatalog.Catalog.Client
import TagCatalog.Proofs.Data.Exchange

/-!
# Retries

How often a request is sent, and which reply decides.

Sending goes on while replies are worth another try and tries are left. `Waits` says
which replies it waits through and which one it stops at. `talk_send_iff` says that
the conversations of a request are exactly those of such replies. The number of
tries is what the induction goes down on, so an endless supply of replies that are
worth another try is no special case: it stops where none are left.

Attempts may as well be counted up in a word, as long as the word does not overflow:
`sendCounting_eq_send` says that this is the same sending.

What is made of the conversation depends on its last reply alone. `Outcome` lists
what that can be for a response, and there is one outcome for each.

The main result is about what a server has to offer, a list of responses or a
sequence without end. From it a request takes as many as it needs and no more, and
there is no second way for it to go.

## Main definitions

* `Http.Waits`: Replies that are waited through, and the one behind them.
* `Http.sendCounting`: A request sent with its attempts counted up.
* `Http.Response.isTemporary`: A status that is worth another try.
* `Http.Describes`: What the headers of a response say about a failure.
* `Http.Outcome`: What a response makes of a request.
* `Client.Settles`: The one conversation that a request has with what is on offer.
* `Client.RepliesOf`: What a sequence of responses without end has on offer.

## Theorems

* `talk_send_zero`, `talk_send_succ`: One reply to a request.
* `talk_send_iff`, `talk_request_iff`: The conversations of a request.
* `sendCounting_eq_send`: Counting up and counting down come to the same.
* `describes_iff`, `outcome_iff`: There is one description and one outcome.
* `settles_of_waits`: A request takes what it waits through and the reply behind.
* `settles_list`, `settles_sequence`: Where sending stops in a list of responses, and
  in a sequence without end.
* `request_settles`: How often a request is sent, and what comes of it.
-/

namespace TagCatalog

open Exchange

namespace Http

/-- Replies that are waited through, and the one behind them: each is worth another
    try, there are enough tries for them, and the one behind is not worth one or
    comes when none is left. -/
structure Waits (retries : Nat) (waiting : List Reply) (last : Reply) : Prop where
  retryable : ∀ r ∈ waiting, r.isRetryable = true
  enough : waiting.length ≤ retries
  stops : waiting.length = retries ∨ last.isRetryable = false

/-- With a try left, one reply more is waited through if it is worth another try. -/
theorem waits_cons_iff (retries : Nat) (r : Reply) (waiting : List Reply) (last : Reply) :
    Waits (retries + 1) (r :: waiting) last ↔
      r.isRetryable = true ∧ Waits retries waiting last := by
  constructor
  · rintro ⟨hretryable, henough, hstops⟩
    rcases List.forall_mem_cons.mp hretryable with ⟨hr, hretryable⟩
    exact ⟨hr, hretryable, Nat.le_of_succ_le_succ henough, hstops.imp_left Nat.succ.inj⟩
  · rintro ⟨hr, hretryable, henough, hstops⟩
    exact ⟨List.forall_mem_cons.mpr ⟨hr, hretryable⟩, Nat.succ_le_succ henough,
      hstops.imp_left (congrArg Nat.succ)⟩

theorem waits_nil_iff (retries : Nat) (last : Reply) :
    Waits retries [] last ↔ retries = 0 ∨ last.isRetryable = false :=
  ⟨fun h => h.stops.imp_left Eq.symm,
    fun h => ⟨fun _ hr => absurd hr List.not_mem_nil, Nat.zero_le _, h.imp_left Eq.symm⟩⟩

section Conversations

variable (request : Request) (retries : Nat) (talk : List (Request × Reply)) (reply : Reply)

/-- Without a try left a request is sent once. -/
theorem talk_send_zero :
    Talk (send request 0) talk (.done reply) ↔ talk = [(request, reply)] := by
  constructor
  · intro h
    cases h with
    | cons _ r _ rest _ h =>
      rcases talk_done h with ⟨rfl, rfl⟩
      rfl
  · rintro rfl
    exact .cons request reply _ [] _ (.nil _)

/-- With a try left it depends on the reply whether sending goes on. -/
theorem talk_send_succ :
    Talk (send request (retries + 1)) talk (.done reply) ↔
      ∃ r rest, talk = (request, r) :: rest ∧
        if r.isRetryable then Talk (send request retries) rest (.done reply)
        else rest = [] ∧ r = reply := by
  constructor
  · intro h
    cases h with
    | cons _ r _ rest _ h =>
      refine ⟨r, rest, rfl, ?_⟩
      by_cases hr : r.isRetryable = true
      · simp only [hr, if_true] at h ⊢
        exact h
      · simp only [hr, Bool.false_eq_true, if_false] at h ⊢
        exact talk_done h
  · rintro ⟨r, rest, rfl, h⟩
    refine .cons request r _ rest _ ?_
    by_cases hr : r.isRetryable = true
    · simp only [hr, if_true] at h ⊢
      exact h
    · simp only [hr, Bool.false_eq_true, if_false] at h ⊢
      rcases h with ⟨rfl, rfl⟩
      exact .nil _

/-- A conversation of a request is one of replies that are waited through and the
    one behind them, and the request is the same each time. -/
theorem talk_send_iff :
    Talk (send request retries) talk (.done reply) ↔
      ∃ waiting, Waits retries waiting reply ∧
        talk = (waiting ++ [reply]).map fun r => (request, r) := by
  induction retries generalizing talk with
  | zero =>
    rw [talk_send_zero]
    constructor
    · rintro rfl
      -- Here any reply is the last one, worth another try or not.
      exact ⟨[], (waits_nil_iff 0 reply).mpr (Or.inl rfl), rfl⟩
    · rintro ⟨waiting, hwaits, rfl⟩
      rw [List.eq_nil_of_length_eq_zero (Nat.le_zero.mp hwaits.enough)]
      rfl
  | succ retries ih =>
    rw [talk_send_succ]
    constructor
    · rintro ⟨r, rest, rfl, h⟩
      -- A reply worth another try is the first one that is waited through.
      split at h
      · next hr =>
        rcases (ih rest).mp h with ⟨waiting, hwaits, rfl⟩
        exact ⟨r :: waiting, (waits_cons_iff _ _ _ _).mpr ⟨hr, hwaits⟩, rfl⟩
      · next hr =>
        rcases h with ⟨rfl, rfl⟩
        exact ⟨[], (waits_nil_iff _ _).mpr (Or.inr (Bool.not_eq_true _ ▸ hr)), rfl⟩
    · rintro ⟨waiting, hwaits, rfl⟩
      cases waiting with
      | nil =>
        -- Tries are left, so the reply is not worth one.
        have hlast := ((waits_nil_iff _ _).mp hwaits).resolve_left (Nat.succ_ne_zero retries)
        exact ⟨reply, [], rfl, by rw [hlast]; exact ⟨rfl, rfl⟩⟩
      | cons r waiting =>
        rcases (waits_cons_iff _ _ _ _).mp hwaits with ⟨hr, hwaits⟩
        exact ⟨r, _, rfl, by rw [if_pos hr]; exact (ih _).mpr ⟨waiting, hwaits, rfl⟩⟩

end Conversations

section Counting

/-- Below the greatest word, counting up does not overflow. -/
theorem toNat_succ_of_lt {n : UInt32} (h : n < 0xFFFFFFFF) : (n + 1).toNat = n.toNat + 1 := by
  have h : n.toNat < 0xFFFFFFFF := h
  have hone : (1 : UInt32).toNat = 1 := rfl
  rw [UInt32.toNat_add, hone]
  omega

/-- A request, sent again while that is worth it, with the attempts counted up from
    the one that is due and compared with how often to retry. -/
def sendCounting (request : Request) (most : UInt32) (hmost : most < 0xFFFFFFFF)
    (attempt : UInt32) : Call Reply :=
  .ask request fun reply =>
    if h : reply.isRetryable = true ∧ attempt ≤ most then
      sendCounting request most hmost (attempt + 1)
    else .done reply
termination_by UInt32.size - attempt.toNat
decreasing_by
  rw [toNat_succ_of_lt (Nat.lt_of_le_of_lt h.2 hmost)]
  exact Nat.sub_succ_lt_self _ _ attempt.toNat_lt

variable (request : Request) (most : UInt32) (hmost : most < 0xFFFFFFFF)

/-- Counting up to a limit is counting down what is left. -/
theorem sendCounting_eq (left : Nat) (attempt : UInt32)
    (h : attempt.toNat + left = most.toNat + 1) :
    sendCounting request most hmost attempt = send request left := by
  induction left generalizing attempt with
  | zero =>
    -- None is left once the number of the attempt is beyond the limit.
    have hbeyond : ¬ attempt ≤ most := fun hle => by
      have hle : attempt.toNat ≤ most.toNat := hle
      omega
    rw [sendCounting, send]
    simp only [hbeyond, and_false, dite_false]
  | succ left ih =>
    have hle : attempt ≤ most := show attempt.toNat ≤ most.toNat by omega
    -- Within the limit the word does not overflow, so the next attempt has one left less.
    have hnext : (attempt + 1).toNat + left = most.toNat + 1 := by
      rw [toNat_succ_of_lt (Nat.lt_of_le_of_lt hle hmost)]
      omega
    rw [sendCounting, send]
    simp only [hle, and_true, ih _ hnext, dite_eq_ite]

/-- The first attempt is number one. -/
theorem sendCounting_eq_send :
    sendCounting request most hmost 1 = send request most.toNat :=
  sendCounting_eq request most hmost most.toNat 1 (Nat.add_comm 1 most.toNat)

end Counting

/-- A status that is worth another try. -/
def Response.isTemporary (r : Response) : Bool :=
  [408, 503, 504].contains r.status

theorem isRetryable_response (r : Response) : (Reply.response r).isRetryable = r.isTemporary := by
  simp [Reply.isRetryable, Response.isTemporary, Bool.or_assoc]

/-- A header that describes a failure, whatever the case of the letters in its name. -/
def DescribesFailure (header : String × String) : Prop :=
  header.1.toList.map Char.toLower = "x-error-description".toList

/-- A character that is taken from headers. -/
def IsVisible (c : Char) : Prop := c = '\t' ∨ ' ' ≤ c ∧ c ≤ '~'

/-- What the headers of a response say about a failure: the first description, read
    as the text it stands for. One with other than visible characters says nothing. -/
inductive Describes : List (String × String) → Option String → Prop
  | silent (headers : List (String × String)) (h : ∀ x ∈ headers, ¬ DescribesFailure x) :
    Describes headers none
  | said (before behind : List (String × String)) (name value : String)
    (hbefore : ∀ x ∈ before, ¬ DescribesFailure x) (hname : DescribesFailure (name, value))
    (hvisible : ∀ c ∈ value.toList, IsVisible c) :
    Describes (before ++ (name, value) :: behind) (some (unescape value.toList))
  | unreadable (before behind : List (String × String)) (name value : String)
    (hbefore : ∀ x ∈ before, ¬ DescribesFailure x) (hname : DescribesFailure (name, value))
    (c : Char) (hc : c ∈ value.toList) (hvisible : ¬ IsVisible c) :
    Describes (before ++ (name, value) :: behind) none

/-- What a response makes of a request for an address. -/
inductive Outcome (url : String) (r : Response) : Except CatalogError Response → Prop
  | success (h : 200 ≤ r.status ∧ r.status < 300) : Outcome url r (.ok r)
  | unauthorized (h : r.status = 401 ∨ r.status = 403) : Outcome url r (.error .unauthorized)
  | failure (description : Option String) (h : ¬(200 ≤ r.status ∧ r.status < 300))
    (hother : r.status ≠ 401 ∧ r.status ≠ 403) (hdescription : Describes r.headers description) :
    Outcome url r (.error (.status url r.status r.body description))

instance (header : String × String) : Decidable (DescribesFailure header) :=
  inferInstanceAs (Decidable (header.1.toList.map Char.toLower = "x-error-description".toList))

theorem header?_description (r : Response) :
    r.header? descriptionHeader =
      (r.headers.find? fun h => decide (DescribesFailure h)).map Prod.snd := rfl

theorem all_visible_iff (cs : List Char) :
    (cs.all fun c => c = '\t' || (0x20 ≤ c.toNat && c.toNat < 0x7F)) = true ↔
      ∀ c ∈ cs, IsVisible c := by
  rw [List.all_eq_true]
  refine forall₂_congr fun c _ => ?_
  have hlow : ' ' ≤ c ↔ 0x20 ≤ c.toNat := Iff.rfl
  have hhigh : c ≤ '~' ↔ c.toNat < 0x7F := Nat.lt_succ_iff.symm
  simp only [IsVisible, hlow, hhigh, Bool.or_eq_true, Bool.and_eq_true, decide_eq_true_eq]

/-- The first description of a failure is the one that is found. -/
theorem find?_describesFailure (before behind : List (String × String)) (header : String × String)
    (hbefore : ∀ x ∈ before, ¬ DescribesFailure x) (hname : DescribesFailure header) :
    (before ++ header :: behind).find? (fun h => decide (DescribesFailure h)) = some header := by
  have hnone : before.find? (fun h => decide (DescribesFailure h)) = none := by
    rw [List.find?_eq_none]
    exact fun x hx hdescribes => hbefore x hx (of_decide_eq_true hdescribes)
  rw [List.find?_append, hnone, Option.none_or]
  exact List.find?_cons_of_pos (decide_eq_true hname)

/-- The headers of a response say one thing about a failure. -/
theorem describes_iff (r : Response) (description : Option String) :
    Describes r.headers description ↔ r.description? = description := by
  unfold Response.description?
  rw [header?_description]
  constructor
  · intro h
    generalize r.headers = headers at h ⊢
    cases h with
    | silent _ h =>
      have hnone : headers.find? (fun h => decide (DescribesFailure h)) = none := by
        rw [List.find?_eq_none]
        exact fun x hx hdescribes => h x hx (of_decide_eq_true hdescribes)
      rw [hnone, Option.map_none]
    | said before behind name value hbefore hname hvisible =>
      rw [find?_describesFailure before behind _ hbefore hname, Option.map_some]
      exact if_pos ((all_visible_iff _).mpr hvisible)
    | unreadable before behind name value hbefore hname c hc hvisible =>
      rw [find?_describesFailure before behind _ hbefore hname, Option.map_some]
      exact if_neg fun hall => hvisible ((all_visible_iff _).mp hall c hc)
  · rintro rfl
    cases hfind : r.headers.find? (fun h => decide (DescribesFailure h)) with
    | none =>
      rw [List.find?_eq_none] at hfind
      exact .silent _ fun x hx hdescribes => hfind x hx (decide_eq_true hdescribes)
    | some header =>
      rcases List.find?_eq_some_iff_append.mp hfind with ⟨hname, before, behind, heq, hbefore⟩
      have hname := of_decide_eq_true hname
      have hbefore : ∀ x ∈ before, ¬ DescribesFailure x := fun x hx => by simpa using hbefore x hx
      rw [heq, Option.map_some]
      by_cases hall : ∀ c ∈ header.2.toList, IsVisible c
      · simp only [(all_visible_iff _).mpr hall, if_true]
        exact .said before behind header.1 header.2 hbefore hname hall
      · simp only [mt (all_visible_iff _).mp hall, if_false, Bool.false_eq_true]
        rcases Classical.not_forall.mp hall with ⟨c, hc⟩
        rcases Classical.not_imp.mp hc with ⟨hc, hvisible⟩
        exact .unreadable before behind header.1 header.2 hbefore hname c hc hvisible

/-- A response makes one thing of a request. -/
theorem outcome_iff (url : String) (r : Response) (result : Except CatalogError Response) :
    Outcome url r result ↔ (Reply.response r).success url = result := by
  unfold Reply.success Response.failure?
  constructor
  · intro h
    cases h with
    | success h => simp only [h, and_self, if_true]
    | unauthorized h =>
      have hnot : ¬(200 ≤ r.status ∧ r.status < 300) := by omega
      simp only [hnot, h, if_true, if_false]
    | failure description h hother hdescription =>
      rw [describes_iff] at hdescription
      simp only [h, hother, or_self, if_false, hdescription]
  · rintro rfl
    by_cases hsuccess : 200 ≤ r.status ∧ r.status < 300
    · simp only [hsuccess, and_self, if_true]
      exact .success hsuccess
    · by_cases hdenied : r.status = 401 ∨ r.status = 403
      · simp only [hsuccess, hdenied, if_true, if_false]
        exact .unauthorized hdenied
      · simp only [hsuccess, hdenied, if_false]
        exact .failure _ hsuccess (not_or.mp hdenied) ((describes_iff r _).mpr rfl)

end Http

open Http

/-- A request has one conversation with the replies on offer. It is sent once for
    each of the responses that are used and not again, and the last one of them
    decides what comes of it. -/
def Client.Settles (c : Client) (request : Request) (offered : List Reply → Prop)
    (used : List Response) (last : Response) : Prop :=
  ∃ result, Outcome request.url last result ∧
    ∀ talk result', Talk (c.request request.method request.url) talk (.done result') ∧
        offered (talk.map Prod.snd) ↔
      (talk = used.map fun r => (request, .response r)) ∧ result' = result

namespace Client

variable (c : Client) (request : Request)

/-- The conversations of a request that has to succeed. -/
theorem talk_request_iff (talk : List (Request × Reply)) (result : Except CatalogError Response) :
    Talk (c.request request.method request.url) talk (.done result) ↔
      ∃ waiting reply, Waits c.retries waiting reply ∧
        (talk = (waiting ++ [reply]).map fun r => (request, r)) ∧
          result = reply.success request.url := by
  constructor
  · intro h
    rcases talk_map h with ⟨reply, hsend, hresult⟩
    rcases (talk_send_iff request c.retries talk reply).mp hsend with ⟨waiting, hwaits, htalk⟩
    exact ⟨waiting, reply, hwaits, htalk, hresult⟩
  · rintro ⟨waiting, reply, hwaits, rfl, rfl⟩
    have hsend := (talk_send_iff request c.retries _ reply).mpr ⟨waiting, hwaits, rfl⟩
    rw [← List.append_nil (List.map _ _)]
    exact hsend.bind (.nil _)

/-- A request uses the responses that are waited through and the one behind them, if
    these are on offer and of any two offers one is the beginning of the other. -/
theorem settles_of_waits (offered : List Reply → Prop) (waiting : List Response) (last : Response)
    (hwaits : Waits c.retries (waiting.map .response) (.response last))
    (hoffered : offered ((waiting ++ [last]).map .response))
    (horder : ∀ xs ys, offered xs → offered ys → xs <+: ys ∨ ys <+: xs) :
    c.Settles request offered (waiting ++ [last]) last := by
  refine ⟨_, (outcome_iff request.url last _).mpr rfl, ?_⟩
  have hreplies : (((waiting ++ [last]).map fun r => (request, Reply.response r)).map Prod.snd) =
      (waiting ++ [last]).map .response := by
    rw [List.map_map]
    rfl
  have htalk : Talk (c.request request.method request.url)
      ((waiting ++ [last]).map fun r => (request, .response r))
      (.done ((Reply.response last).success request.url)) := by
    refine (c.talk_request_iff request _ _).mpr ⟨_, _, hwaits, ?_, rfl⟩
    rw [← List.map_singleton, ← List.map_append, List.map_map]
    rfl
  intro talk result'
  constructor
  · -- The answers are as offered, so they decide how the conversation goes.
    rintro ⟨h, hanswers⟩
    rw [← hreplies] at hoffered
    rcases horder _ _ hanswers hoffered with ⟨rest, hrest⟩ | ⟨rest, hrest⟩
    · rw [← List.append_nil (List.map Prod.snd (List.map _ _))] at hrest
      exact talk_unique_of_answers h htalk hrest
    · rw [← List.append_nil (List.map Prod.snd talk)] at hrest
      rcases talk_unique_of_answers htalk h hrest with ⟨hsame, hresult⟩
      exact ⟨hsame.symm, hresult.symm⟩
  · rintro ⟨rfl, rfl⟩
    rw [hreplies]
    exact ⟨htalk, hoffered⟩

/-- Responses with temporary statuses are waited through while tries are left. -/
theorem waits_of_isTemporary (retries : Nat) (waiting : List Response) (last : Response)
    (htemporary : ∀ r ∈ waiting, r.isTemporary = true) (henough : waiting.length ≤ retries)
    (hstops : waiting.length = retries ∨ last.isTemporary = false) :
    Waits retries (waiting.map .response) (.response last) := by
  refine ⟨fun reply hreply => ?_, ?_, ?_⟩
  · rcases List.mem_map.mp hreply with ⟨r, hr, rfl⟩
    rw [isRetryable_response]
    exact htemporary r hr
  · rw [List.length_map]
    exact henough
  · rw [List.length_map, isRetryable_response]
    exact hstops

/-- The response behind the temporary ones at the beginning is not temporary. -/
theorem isTemporary_of_getElem? (rs : List Response) (last : Response)
    (h : rs[(rs.takeWhile Response.isTemporary).length]? = some last) :
    last.isTemporary = false := by
  induction rs with
  | nil => exact nomatch h
  | cons r rs ih =>
    by_cases hr : r.isTemporary = true
    · rw [List.takeWhile_cons_of_pos hr, List.length_cons, List.getElem?_cons_succ] at h
      exact ih h
    · rw [List.takeWhile_cons_of_neg hr, List.length_nil, List.getElem?_cons_zero,
        Option.some.injEq] at h
      rw [← h]
      exact Bool.not_eq_true _ ▸ hr

/-- What a list of responses makes of a request. -/
theorem settles_list (rs : List Response) (last : Response)
    (hlast : rs[min (rs.takeWhile Response.isTemporary).length c.retries]? = some last) :
    c.Settles request (· <+: rs.map .response)
      (rs.take (min (rs.takeWhile Response.isTemporary).length c.retries + 1)) last := by
  generalize hk : (rs.takeWhile Response.isTemporary).length = k at hlast ⊢
  have htake : rs.take (min k c.retries + 1) = rs.take (min k c.retries) ++ [last] := by
    rw [List.take_add_one, hlast]
    rfl
  have hfront : rs.take (min k c.retries + 1) <+: rs := List.take_prefix _ _
  have hlength : (rs.take (min k c.retries)).length = min k c.retries := by
    rw [List.length_take]
    have := (List.getElem?_eq_some_iff.mp hlast).1
    omega
  rw [htake] at hfront ⊢
  refine c.settles_of_waits request _ _ last (waits_of_isTemporary _ _ _ ?_ ?_ ?_)
    (hfront.map _) fun xs ys hxs hys => List.prefix_or_prefix_of_prefix hxs hys
  · -- As many as there are tries, or all temporary ones at the beginning.
    intro r hr
    have hfirst : rs.takeWhile Response.isTemporary = rs.take k :=
      hk ▸ List.prefix_iff_eq_take.mp (List.takeWhile_prefix _)
    have hmem : r ∈ (rs.take k).take c.retries := by
      rwa [List.take_take, Nat.min_comm]
    rw [← hfirst] at hmem
    exact List.mem_takeWhile_imp (List.mem_of_mem_take hmem)
  · rw [hlength]
    exact Nat.min_le_right _ _
  · rw [hlength]
    by_cases hle : c.retries ≤ k
    · exact Or.inl (Nat.min_eq_right hle)
    · refine Or.inr (isTemporary_of_getElem? rs last ?_)
      rw [Nat.min_eq_left (Nat.le_of_not_le hle)] at hlast
      rw [hk, hlast]

/-- The replies of a server that gives one response after the other. -/
def RepliesOf (rs : Nat → Response) (replies : List Reply) : Prop :=
  ∃ m, replies = (List.range m).map fun i => .response (rs i)

/-- What a sequence of responses without end makes of a request. -/
theorem settles_sequence (rs : Nat → Response) (n : Nat)
    (htemporary : ∀ i < n, (rs i).isTemporary = true) (henough : n ≤ c.retries)
    (hstops : n = c.retries ∨ (rs n).isTemporary = false) :
    c.Settles request (RepliesOf rs) ((List.range (n + 1)).map rs) (rs n) := by
  have hused : (List.range (n + 1)).map rs = (List.range n).map rs ++ [rs n] := by
    rw [List.range_succ, List.map_append, List.map_singleton]
  have hlength : ((List.range n).map rs).length = n := by
    rw [List.length_map, List.length_range]
  rw [hused]
  refine c.settles_of_waits request _ _ (rs n) (waits_of_isTemporary _ _ _ ?_ ?_ ?_) ⟨n + 1, ?_⟩ ?_
  · intro r hr
    rcases List.mem_map.mp hr with ⟨i, hi, rfl⟩
    exact htemporary i (List.mem_range.mp hi)
  · rw [hlength]
    exact henough
  · rw [hlength]
    exact hstops
  · rw [← hused, List.map_map]
    rfl
  · -- Of two beginnings of the sequence the shorter one is a beginning of the longer one.
    have hle : ∀ m m' : Nat, m ≤ m' → ((List.range m).map fun i => Reply.response (rs i)) <+:
        (List.range m').map fun i => .response (rs i) := by
      intro m m' h
      refine List.IsPrefix.map _ (List.prefix_iff_eq_take.mpr ?_)
      rw [List.length_range, List.take_range, Nat.min_eq_left h]
    rintro _ _ ⟨m, rfl⟩ ⟨m', rfl⟩
    exact (Nat.le_total m m').imp (hle m m') (hle m' m)

/-- A request is sent once more than there are responses with temporary statuses at
    the beginning of what the server has to offer, or once more than there are
    retries, if these are fewer. It is the same each time, nothing is taken from the
    server behind the last response, and that response alone decides what comes of it. -/
theorem request_settles :
    (∀ (rs : List Response) (last : Response),
      let n := min (rs.takeWhile Response.isTemporary).length c.retries
      rs[n]? = some last →
        (rs.take (n + 1)).length = n + 1 ∧
          c.Settles request (· <+: rs.map .response) (rs.take (n + 1)) last) ∧
      ∀ rs : Nat → Response,
        (∀ k, (∀ i < k, (rs i).isTemporary = true) → (rs k).isTemporary = false →
          c.Settles request (RepliesOf rs) ((List.range (min k c.retries + 1)).map rs)
            (rs (min k c.retries))) ∧
          ((∀ i, (rs i).isTemporary = true) →
            c.Settles request (RepliesOf rs) ((List.range (c.retries + 1)).map rs)
              (rs c.retries)) := by
  refine ⟨?_, fun rs => ⟨fun k hbefore hbehind => ?_, fun hall => ?_⟩⟩
  · intro rs last n hlast
    refine ⟨?_, c.settles_list request rs last hlast⟩
    have hlt := (List.getElem?_eq_some_iff.mp hlast).1
    rw [List.length_take]
    omega
  · refine c.settles_sequence request rs _ (fun i hi => hbefore i (by omega))
      (Nat.min_le_right _ _) ?_
    by_cases hle : c.retries ≤ k
    · exact Or.inl (Nat.min_eq_right hle)
    · rw [Nat.min_eq_left (Nat.le_of_not_le hle)]
      exact Or.inr hbehind
  · exact c.settles_sequence request rs _ (fun i _ => hall i) (Nat.le_refl _) (Or.inl rfl)

/-- Two retries are used up on a server that is busy twice and then too slow. -/
theorem request_settles_gives_up :
    let c : Client := ⟨"h", 2⟩
    let busy : Response := ⟨503, "", []⟩
    let slow : Response := ⟨408, "late", [("x-error-Description", "too%20late")]⟩
    let rs := [busy, busy, slow, ⟨200, "[]", []⟩]
    rs[min (rs.takeWhile Response.isTemporary).length c.retries]? = some slow ∧
      c.Settles ⟨.put, "h/u"⟩ (· <+: rs.map .response) [busy, busy, slow] slow ∧
      Outcome "h/u" slow (.error (.status "h/u" 408 "late" (some "too late"))) := by
  intro c busy slow rs
  have hlast : rs[min (rs.takeWhile Response.isTemporary).length c.retries]? = some slow := by
    decide
  exact ⟨hlast, ((c.request_settles ⟨.put, "h/u"⟩).1 rs slow hlast).2,
    (outcome_iff "h/u" slow _).mpr (by decide)⟩

end Client

end TagCatalog
