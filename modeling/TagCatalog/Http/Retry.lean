import TagCatalog.Http.Basic
import TagCatalog.Number.Word

/-!
# Retrying

A request is sent again when the server was out of reach or had no time for
it, up to a number of times. Each time the wait is ten times as long as the
time before, up to a limit, and is stretched or shortened by chance.

## Main definitions

* `Http.Reply.isRetryable`: Whether a request is worth sending again.
* `Http.send`: A request sent until there is an answer that counts.
* `Http.retryDelay`: How long to wait before a retry.
-/

namespace TagCatalog

namespace Http

/-- Whether a request is worth sending again. -/
def Reply.isRetryable : Reply → Bool
  | response r => r.status = 408 || r.status = 503 || r.status = 504
  | unanswered (.unreachable _) => true
  | unanswered .unsendable => false

/-- A request, sent again while that is worth it and `retries` are left. Counting
    up the attempts in a word of 32 bits comes to the same where the word does not
    overflow, which is `sendCounting_eq_send`. -/
def send (request : Request) : Nat → Call Reply
  | 0 => .ask request .done
  | retries + 1 => .ask request fun reply =>
    if reply.isRetryable then send request retries else .done reply

/-- How many milliseconds to wait before a retry: `percent / 100 * 10 ^ (n - 5)`,
    rounded up, and at most `longest`. The number `n` of the retry is a signed
    word, and so small a power of ten that no floating-point number is near it
    counts as nothing. -/
def retryDelay (percent : Nat) (n : UInt32) (longest : UInt64) : UInt64 :=
  let exponent := n.toInt32.toInt
  let hundredths : Nat :=
    if exponent < -308 then 0
    else if exponent < 0 then 1
    else percent * Nat.pow 10 (min exponent.toNat 30)
  min longest (Word.saturate ((hundredths + 9999999) / 10000000))

end Http

end TagCatalog
