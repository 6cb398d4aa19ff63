import Aetelier.BoundedRetry
import Aetelier.BucketListing
import Aetelier.SignedGet
import Aetelier.Trace
import Mathlib.Algebra.Order.BigOperators.Group.List
import Mathlib.Algebra.Order.Floor.Semiring
import Mathlib.Data.List.Induction
import Mathlib.Data.NNRat.Floor

/-!
# Transfers from a bucket

A client of a bucket is shared: any number of calls are in flight, each of
which sends a request, waits for the answer and then for the body, and after an
answer that may heal – the server is busy, the transport failed – waits a while
and sends the request again. All of them charge one set of counters.

A turn is a call taking up what it has waited for. Turns of the calls
interleave in any order, but a call sees nothing of the others: what it comes
to is what a bounded number of attempts of its own come to
(`S3Client.settled_run`). The counters add up over the calls
(`S3Client.counters_run`), each call waits before its requests and after its
setbacks as the policy and the server ask (`S3Client.backoffs_run`), and what a
call returns has passed its check (`S3Client.verified_run`).

Durations are in nanoseconds, with rationals for the floating-point numbers of
the source, and the counters are not bounded. A draw of the random generator is
an input, in nanoseconds; a draw that is out of its range stands for the end of
the range. Left out is the log. What goes out with a request and what is read
out of the page of a listing is elsewhere.
-/

/-! ## The policy -/

/-- What a status asks for. -/
inductive Verdict where
  | success
  | retryAfterBackoff
  | fatal
deriving DecidableEq, Repr

/-- The verdict on a status. -/
def classifyStatus (status : ℕ) : Verdict :=
  if 200 ≤ status ∧ status ≤ 299 then .success
  else if status = 408 ∨ status = 425 ∨ status = 429 then .retryAfterBackoff
  else if 500 ≤ status ∧ status ≤ 599 then .retryAfterBackoff
  else .fatal

/-- The seconds a server asks for, ten minutes at most. -/
def parseRetryAfter (raw : String) : Option ℕ :=
  (parseU64 (Str.trim raw)).map fun secs => min secs 600 * 1000000000

/-- An error of the transport, with the kinds it is of. -/
structure TransportError where
  text : String
  isTimeout : Bool
  isConnect : Bool
  isRequest : Bool
  isBody : Bool
  isDecode : Bool
deriving DecidableEq, Repr

/-- The error may be gone the next time. -/
def isRetryableTransport (e : TransportError) : Bool :=
  e.isTimeout || e.isConnect || e.isRequest || e.isBody || e.isDecode

/-- How often a request is tried again, and how long that waits. -/
structure RetryPolicy where
  maxRetries : ℕ
  baseDelayNs : ℕ
  maxDelayNs : ℕ
  multiplier : ℚ≥0
deriving DecidableEq

namespace RetryPolicy

/-- The policy of a client that is given none. -/
def byDefault : RetryPolicy where
  maxRetries := 8
  baseDelayNs := 500000000
  maxDelayNs := 120000000000
  multiplier := (2 : ℕ)

/-- The longest wait after the attempt: geometric, up to the longest of all. -/
def ceiling (p : RetryPolicy) (attempt : ℕ) : ℕ :=
  let scaled : ℚ≥0 := p.baseDelayNs * p.multiplier ^ min attempt 1024
  if (p.maxDelayNs : ℚ≥0) ≤ scaled then p.maxDelayNs else ⌊scaled + 1 / (2 : ℕ)⌋₊

/-- The wait after the attempt: half of the longest, and as much again at random. -/
def jittered (p : RetryPolicy) (attempt draw : ℕ) : ℕ :=
  p.ceiling attempt / 2 + min draw (p.ceiling attempt / 2)

/-- The wait after the attempt, and not less than the server asks for. -/
def delayFor (p : RetryPolicy) (attempt : ℕ) (retryAfter : Option ℕ) (draw : ℕ) : ℕ :=
  match retryAfter with
  | some hinted => max (min hinted p.maxDelayNs) (p.jittered attempt draw)
  | none => p.jittered attempt draw

/-- There is no retry left after the attempt. -/
def exhausted (p : RetryPolicy) (attempt : ℕ) : Bool := decide (p.maxRetries ≤ attempt)

theorem exhausted_eq_false_iff (p : RetryPolicy) {attempt : ℕ} :
    p.exhausted attempt = false ↔ attempt < p.maxRetries := by
  unfold exhausted
  rw [decide_eq_false_iff_not, Nat.not_le]

variable (p : RetryPolicy) (attempt draw : ℕ)

theorem ceiling_le : p.ceiling attempt ≤ p.maxDelayNs := by
  unfold ceiling
  dsimp only
  split
  · exact le_rfl
  · next hlt =>
    -- What is below a natural number is not rounded beyond it.
    refine Nat.lt_succ_iff.mp ((Nat.floor_lt zero_le).mpr ?_)
    rw [Nat.cast_succ p.maxDelayNs]
    have hhalf : (1 : ℚ≥0) / (2 : ℕ) < 1 := by norm_num
    exact add_lt_add (not_le.mp hlt) hhalf

theorem half_le_jittered : p.ceiling attempt / 2 ≤ p.jittered attempt draw := Nat.le_add_right _ _

theorem jittered_le : p.jittered attempt draw ≤ p.ceiling attempt := by
  unfold jittered
  have hdraw : min draw (p.ceiling attempt / 2) ≤ p.ceiling attempt / 2 := min_le_right _ _
  omega

end RetryPolicy

/-- How long a request is held back before it is sent. -/
structure Jitter where
  minNs : ℕ
  maxNs : ℕ
deriving DecidableEq, Repr

namespace Jitter

/-- The pace of a client that is given none. -/
def byDefault : Jitter where
  minNs := 120000000
  maxNs := 650000000

def new (minNs maxNs : ℕ) : Jitter where
  minNs := minNs
  maxNs := max maxNs minNs

/-- A wait at random between the two. -/
def sample (j : Jitter) (draw : ℕ) : ℕ :=
  if j.maxNs ≤ j.minNs then j.minNs else j.minNs + min draw (j.maxNs - j.minNs)

theorem sample_bounds (j : Jitter) (draw : ℕ) :
    j.minNs ≤ j.sample draw ∧ j.sample draw ≤ max j.minNs j.maxNs := by
  unfold sample
  split
  · exact ⟨le_rfl, le_max_left _ _⟩
  · next hlt =>
    have hdraw : min draw (j.maxNs - j.minNs) ≤ j.maxNs - j.minNs := min_le_right _ _
    refine ⟨Nat.le_add_right _ _, le_max_of_le_right ?_⟩
    omega

end Jitter

/-! ## A call -/

/-- `TransferSnapshot`: the counters of a client. -/
structure TransferSnapshot where
  getRequests : ℕ
  listRequests : ℕ
  retries : ℕ
  bytesIn : ℕ
  unpaidResponses : ℕ
  integrityFail : ℕ
deriving DecidableEq, Repr

inductive RequestKind where
  | get
  | list
deriving DecidableEq, Repr

/-- The head of an answer. A header is there if its value is text. -/
structure Response where
  status : ℕ
  header : String → Option String

/-- What is kept of the head of an answer. -/
structure RespMeta where
  etag : Option String
  contentLength : Option ℕ
  requestCharged : Bool
deriving DecidableEq, Repr

def RespMeta.ofResponse (resp : Response) : RespMeta where
  etag := (resp.header "etag").map (Str.trimMatches '"')
  contentLength := (resp.header "content-length").bind parseU64
  requestCharged := (resp.header "x-amz-request-charged").any (· == "requester")

/-- An object as it was retrieved. -/
structure FetchedObject where
  bytes : List UInt8
  etag : Option String
  requestCharged : Bool
deriving DecidableEq, Repr

/-- The tag is written as an MD5 sum is. -/
def isMd5Tag (tag : String) : Bool :=
  (Str.asBytes tag).length == 32 && tag.toList.all fun c =>
    c.isDigit || ('a' ≤ c && c ≤ 'f') || ('A' ≤ c && c ≤ 'F')

/-- What is wrong with a body, by what its head says of it; `md5` computes the sum. -/
def verifyIntegrity (md5 : List UInt8 → List UInt8) (key : String) (bytes : List UInt8)
    (etag : Option String) (contentLength : Option ℕ) : Except EntrepotError Unit :=
  match contentLength.filter (· != bytes.length) with
  | some cl => .error (.integrity key
      ("body " ++ toString bytes.length ++ " bytes vs content-length " ++ toString cl))
  | none =>
    match etag.filter isMd5Tag with
    | some tag =>
      let digest := Str.hexEncode (md5 bytes)
      if Str.toAsciiLowercase digest = Str.toAsciiLowercase tag then .ok ()
      else .error (.integrity key ("md5 " ++ digest ++ " vs etag " ++ tag))
    | none => .ok ()

/-- Where a call stands. -/
inductive CallPhase where
  /-- It waits to send the request. -/
  | pacing
  /-- It waits for the answer. -/
  | sent
  /-- It waits for the body. -/
  | reading (head : RespMeta)
  /-- It waits for the text of a refusal. -/
  | refused (status : ℕ)
  /-- It waits to try again. -/
  | backingOff
  /-- It has returned. -/
  | settled (result : Except EntrepotError FetchedObject)

/-- A call of `get_with_retry`, by `get_object` or for a page of a listing. -/
structure S3Call where
  kind : RequestKind
  label : String
  attempt : ℕ
  phase : CallPhase

/-- What a call may have waited for. Where it goes on to wait, `draw` is drawn for that. -/
inductive CallInput where
  | slept (draw : ℕ)
  | answered (resp : Response) (draw : ℕ)
  | sendFailed (e : TransportError) (draw : ℕ)
  | body (bytes : List UInt8)
  | bodyFailed (e : TransportError) (draw : ℕ)
  | text (t : Option String)

/-- What a call does that takes time. -/
inductive CallEffect where
  | pace (ns : ℕ)
  | backoff (ns : ℕ)
deriving DecidableEq, Repr

/-- A client, apart from what moves. -/
structure S3Settings where
  cfg : S3Config
  policy : RetryPolicy
  pace : Jitter
  md5 : List UInt8 → List UInt8

namespace S3Settings

variable (z : S3Settings)

/-- `retry_transport`, after a failure in this call. -/
def retryTransport (stats : TransferSnapshot) (c : S3Call) (e : TransportError) (draw : ℕ) :
    (TransferSnapshot × S3Call) × List CallEffect :=
  if !isRetryableTransport e || z.policy.exhausted c.attempt then
    ((stats, { c with phase := .settled (.error (.transport e.text)) }), [])
  else
    (({ stats with retries := stats.retries + 1 }, { c with phase := .backingOff }),
      [.backoff (z.policy.delayFor c.attempt none draw)])

/-- The request of the kind is counted. -/
def countRequest (stats : TransferSnapshot) : RequestKind → TransferSnapshot
  | .get => { stats with getRequests := stats.getRequests + 1 }
  | .list => { stats with listRequests := stats.listRequests + 1 }

/-- An answer that should say that the requester was charged, and does not. -/
def isUnpaid (head : RespMeta) : Bool :=
  z.cfg.requesterPays && z.cfg.credentials.isSome && !head.requestCharged

/-- The call takes up the head of the answer. -/
def onResponse (stats : TransferSnapshot) (c : S3Call) (resp : Response) (draw : ℕ) :
    (TransferSnapshot × S3Call) × List CallEffect :=
  match classifyStatus resp.status with
  | .success =>
    let head := RespMeta.ofResponse resp
    let stats := if z.isUnpaid head then
        { stats with unpaidResponses := stats.unpaidResponses + 1 } else stats
    ((stats, { c with phase := .reading head }), [])
  | .retryAfterBackoff =>
    let hint := (resp.header "retry-after").bind parseRetryAfter
    if z.policy.exhausted c.attempt then
      ((stats, { c with phase := .settled (.error
        (.exhausted (c.attempt + 1) c.label ("http " ++ toString resp.status))) }), [])
    else
      (({ stats with retries := stats.retries + 1 }, { c with phase := .backingOff }),
        [.backoff (z.policy.delayFor c.attempt hint draw)])
  | .fatal => ((stats, { c with phase := .refused resp.status }), [])

/-- The call takes up the body: what was asked for as an object is verified, as
`get_object` does; the page of a listing is handed on. -/
def onBody (stats : TransferSnapshot) (c : S3Call) (head : RespMeta) (bytes : List UInt8) :
    TransferSnapshot × S3Call :=
  let stats := { stats with bytesIn := stats.bytesIn + bytes.length }
  let fetched : FetchedObject := ⟨bytes, head.etag, head.requestCharged⟩
  match c.kind with
  | .list => (stats, { c with phase := .settled (.ok fetched) })
  | .get =>
    match verifyIntegrity z.md5 c.label bytes head.etag head.contentLength with
    | .error e => ({ stats with integrityFail := stats.integrityFail + 1 },
        { c with phase := .settled (.error e) })
    | .ok _ => (stats, { c with phase := .settled (.ok fetched) })

/-- **One turn of a call**; it waits for one thing at a time. -/
def callStep (stats : TransferSnapshot) (c : S3Call) (i : CallInput) :
    (TransferSnapshot × S3Call) × List CallEffect :=
  match c.phase, i with
  | .pacing, .slept _ => ((countRequest stats c.kind, { c with phase := .sent }), [])
  | .sent, .answered resp draw => z.onResponse stats c resp draw
  | .sent, .sendFailed e draw => z.retryTransport stats c e draw
  | .reading head, .body bytes => (z.onBody stats c head bytes, [])
  | .reading _, .bodyFailed e draw => z.retryTransport stats c e draw
  | .refused status, .text t =>
    let body := String.ofList ((t.getD "").toList.take 2048)
    ((stats, { c with phase := .settled (.error (.status status c.label body)) }), [])
  | .backingOff, .slept draw =>
    ((stats, { c with attempt := c.attempt + 1, phase := .pacing }), [.pace (z.pace.sample draw)])
  | _, _ => ((stats, c), [])

end S3Settings

/-! ## A client and its calls -/

/-- A client: its counters, and its calls in the order they were made. -/
structure S3Client where
  stats : TransferSnapshot
  calls : List S3Call

/-- What happens at a client. -/
inductive ClientInput where
  /-- A call is made, for the key or the start of the keys. -/
  | begin (kind : RequestKind) (label : String) (draw : ℕ)
  /-- A call takes its turn. -/
  | turn (call : ℕ) (i : CallInput)

/-- **What an attempt came to.** -/
inductive AttemptEnd where
  | body (head : RespMeta) (bytes : List UInt8)
  | busy (status : ℕ)
  | refused (status : ℕ) (text : Option String)
  | failed (e : TransportError)

/-- **Why a call tries again**: the number of the attempt that came to nothing, and what
the server says of the wait, if it was the server. -/
structure Setback where
  attempt : ℕ
  retryAfter : Option String
deriving DecidableEq, Repr

namespace S3Call

/-- The result, if the call has returned. -/
def result? (c : S3Call) : Option (Except EntrepotError FetchedObject) :=
  match c.phase with
  | .settled result => some result
  | _ => none

/-- What ends the present attempt, if it does. -/
def ending (c : S3Call) (i : CallInput) : Option AttemptEnd :=
  match c.phase, i with
  | .sent, .answered resp _ =>
    if classifyStatus resp.status = .retryAfterBackoff then some (.busy resp.status) else none
  | .sent, .sendFailed e _ => some (.failed e)
  | .reading head, .body bytes => some (.body head bytes)
  | .reading _, .bodyFailed e _ => some (.failed e)
  | .refused status, .text t => some (.refused status t)
  | _, _ => none

/-- The requests it has sent. -/
def requests (c : S3Call) : ℕ :=
  match c.phase with
  | .pacing => c.attempt
  | _ => c.attempt + 1

/-- The retries it has decided on. -/
def retries (c : S3Call) : ℕ :=
  match c.phase with
  | .backingOff => c.attempt + 1
  | _ => c.attempt

/-- The bytes it has returned. -/
def bytesReturned (c : S3Call) : ℕ :=
  match c.phase with
  | .settled (.ok fetched) => fetched.bytes.length
  | _ => 0

/-- The body that its turn brings, if that is not what was asked for. -/
def spoiled (md5 : List UInt8 → List UInt8) (c : S3Call) (i : CallInput) : Option (List UInt8) :=
  match c.kind, c.phase, i with
  | .get, .reading head, .body bytes =>
    match verifyIntegrity md5 c.label bytes head.etag head.contentLength with
    | .error _ => some bytes
    | .ok _ => none
  | _, _, _ => none

/-- The head that its turn brings, if the server should have said that it charges. -/
def unpaid (z : S3Settings) (c : S3Call) (i : CallInput) : Option RespMeta :=
  match c.phase, i with
  | .sent, .answered resp _ =>
    if classifyStatus resp.status = .success ∧ z.isUnpaid (.ofResponse resp) then
      some (.ofResponse resp) else none
  | _, _ => none

/-- The failure of the transport, if the call may try again. -/
def failure (z : S3Settings) (c : S3Call) (e : TransportError) : Option Setback :=
  if isRetryableTransport e ∧ c.attempt < z.policy.maxRetries then some ⟨c.attempt, none⟩
  else none

/-- The setback that its turn brings, if the call may try again. -/
def setback (z : S3Settings) (c : S3Call) (i : CallInput) : Option Setback :=
  match c.phase, i with
  | .sent, .answered resp _ =>
    if classifyStatus resp.status = .retryAfterBackoff ∧ c.attempt < z.policy.maxRetries then
      some ⟨c.attempt, resp.header "retry-after"⟩
    else none
  | .sent, .sendFailed e _ => c.failure z e
  | .reading _, .bodyFailed e _ => c.failure z e
  | _, _ => none

end S3Call

namespace S3Client

variable (z : S3Settings)

/-- A client that has made no call. -/
def new : S3Client where
  stats := ⟨0, 0, 0, 0, 0, 0⟩
  calls := []

/-- **One input of a client**; what takes time is written with the number of the call. -/
def step (s : S3Client) : ClientInput → S3Client × List (ℕ × CallEffect)
  | .begin kind label draw =>
    ({ s with calls := s.calls ++ [⟨kind, label, 0, .pacing⟩] },
      [(s.calls.length, .pace (z.pace.sample draw))])
  | .turn n i =>
    match s.calls[n]? with
    | none => (s, [])
    | some c =>
      let turn := z.callStep s.stats c i
      ({ stats := turn.1.1, calls := s.calls.set n turn.1.2 }, turn.2.map fun e => (n, e))

/-- The client as a machine. -/
def machine : Machine S3Client ClientInput (ℕ × CallEffect) where
  step := step z

/-- What the turn of a call gives, by what a call makes of it. -/
def ofTurn {β : Type} (f : S3Call → CallInput → Option β) (s : S3Client) :
    ClientInput → Option β
  | .begin _ _ _ => none
  | .turn n i => s.calls[n]?.bind (f · i)

/-- What a turn of the call of the number gives. -/
def ofCall {β : Type} (f : S3Call → CallInput → Option β) (n : ℕ) (s : S3Client) :
    ClientInput → Option β
  | .begin _ _ _ => none
  | .turn m i => if m = n then s.calls[m]?.bind (f · i) else none

/-- What ends an attempt of the call of the number, if the input does. -/
def endingOf : ℕ → S3Client → ClientInput → Option AttemptEnd := ofCall S3Call.ending

/-- **What the attempts of a call came to** in a run. -/
def ends (n : ℕ) (is : List ClientInput) : List AttemptEnd :=
  (machine z).collect (endingOf n) new is

/-- **The setbacks of a call** in a run. -/
def setbacks (n : ℕ) (is : List ClientInput) : List Setback :=
  (machine z).collect (ofCall (S3Call.setback z) n) new is

/-- What the call of the number did that takes time. -/
def effectsOf (n : ℕ) (effects : List (ℕ × CallEffect)) : List CallEffect :=
  effects.filterMap fun e => if e.1 = n then some e.2 else none

end S3Client

/-- **How the attempts of a call are judged**: a body or a refusal is final, and so is a
failure that no retry heals. -/
def S3Settings.retry (z : S3Settings) (kind : RequestKind) (label : String) :
    BoundedRetry AttemptEnd (Except EntrepotError FetchedObject) where
  budget := z.policy.maxRetries
  isFinal
    | .body _ _ => true
    | .busy _ => false
    | .refused _ _ => true
    | .failed e => !isRetryableTransport e
  report n
    | .body head bytes =>
      match kind with
      | .list => .ok ⟨bytes, head.etag, head.requestCharged⟩
      | .get => (verifyIntegrity z.md5 label bytes head.etag head.contentLength).map
          fun _ => ⟨bytes, head.etag, head.requestCharged⟩
    | .busy status => .error (.exhausted (n + 1) label ("http " ++ toString status))
    | .refused status text => .error (.status status label
        (String.ofList ((text.getD "").toList.take 2048)))
    | .failed e => .error (.transport e.text)

/-! ## What a turn does -/

/-- A request of the call is out. -/
def S3Call.isOut (c : S3Call) : Bool :=
  match c.phase with
  | .sent => true
  | .reading _ => true
  | .refused _ => true
  | _ => false

/-- **What a turn of a call does**: to the counters and the call, with its effects; how
it ends the attempt, the body that it spoils, the head that says nothing of a charge,
and the setback after which the call tries again. -/
inductive CallTurn (z : S3Settings) (stats : TransferSnapshot) (c : S3Call) :
    (TransferSnapshot × S3Call) × List CallEffect → Option AttemptEnd → Option (List UInt8) →
      Option RespMeta → Option Setback → Prop
  | quiet : CallTurn z stats c ((stats, c), []) none none none none
  | sends (h : c.phase = .pacing) :
    CallTurn z stats c ((S3Settings.countRequest stats c.kind, { c with phase := .sent }), [])
      none none none none
  | hears (h : c.phase = .sent) (head : RespMeta) :
    CallTurn z stats c
      ((if z.isUnpaid head then { stats with unpaidResponses := stats.unpaidResponses + 1 }
        else stats, { c with phase := .reading head }), [])
      none none (if z.isUnpaid head then some head else none) none
  | refused (h : c.phase = .sent) (status : ℕ) :
    CallTurn z stats c ((stats, { c with phase := .refused status }), []) none none none none
  | retries (h : c.isOut = true) (a : AttemptEnd)
      (hlast : (z.retry c.kind c.label).isLast c.attempt a = false)
      (retryAfter : Option String) (draw : ℕ) :
    CallTurn z stats c
      (({ stats with retries := stats.retries + 1 }, { c with phase := .backingOff }),
        [.backoff (z.policy.delayFor c.attempt (retryAfter.bind parseRetryAfter) draw)])
      (some a) none none (some ⟨c.attempt, retryAfter⟩)
  | fails (h : c.isOut = true) (a : AttemptEnd)
      (hlast : (z.retry c.kind c.label).isLast c.attempt a = true) (e : EntrepotError)
      (he : (z.retry c.kind c.label).report c.attempt a = .error e) :
    CallTurn z stats c ((stats, { c with phase := .settled (.error e) }), []) (some a) none none
      none
  | delivers (head : RespMeta) (bytes : List UInt8) (h : c.phase = .reading head)
      (hok : (z.retry c.kind c.label).report c.attempt (.body head bytes)
        = .ok ⟨bytes, head.etag, head.requestCharged⟩) :
    CallTurn z stats c
      (({ stats with bytesIn := stats.bytesIn + bytes.length },
        { c with phase := .settled (.ok ⟨bytes, head.etag, head.requestCharged⟩) }), [])
      (some (.body head bytes)) none none none
  | spoils (head : RespMeta) (bytes : List UInt8) (h : c.phase = .reading head)
      (e : EntrepotError)
      (he : (z.retry c.kind c.label).report c.attempt (.body head bytes) = .error e) :
    CallTurn z stats c
      (({ stats with
          bytesIn := stats.bytesIn + bytes.length, integrityFail := stats.integrityFail + 1 },
        { c with phase := .settled (.error e) }), [])
      (some (.body head bytes)) (some bytes) none none
  | wakes (h : c.phase = .backingOff) (draw : ℕ) :
    CallTurn z stats c
      ((stats, { c with attempt := c.attempt + 1, phase := .pacing }),
        [.pace (z.pace.sample draw)])
      none none none none

namespace CallTurn

variable {z : S3Settings} (stats : TransferSnapshot) (c : S3Call)

/-- After a failure of the transport. -/
theorem of_retryTransport (h : c.isOut = true) (e : TransportError) (draw : ℕ) :
    CallTurn z stats c (z.retryTransport stats c e draw) (some (.failed e)) none none
      (c.failure z e) := by
  have hlast : (z.retry c.kind c.label).isLast c.attempt (.failed e)
      = (!isRetryableTransport e || z.policy.exhausted c.attempt) := rfl
  have hagain : (isRetryableTransport e = true ∧ c.attempt < z.policy.maxRetries)
      ↔ (!isRetryableTransport e || z.policy.exhausted c.attempt) = false := by
    rw [Bool.or_eq_false_iff, Bool.not_eq_false', z.policy.exhausted_eq_false_iff]
  unfold S3Settings.retryTransport S3Call.failure
  split
  · next hover =>
    rw [if_neg fun hgoes => Bool.eq_false_iff.mp (hagain.mp hgoes) hover]
    exact .fails h _ (hlast.trans hover) _ rfl
  · next hgoes =>
    rw [if_pos (hagain.mpr (Bool.eq_false_iff.mpr hgoes))]
    exact .retries h _ (hlast.trans (Bool.eq_false_iff.mpr hgoes)) none draw

/-- After the head of an answer. -/
theorem of_onResponse (h : c.phase = .sent) (resp : Response) (draw : ℕ) :
    CallTurn z stats c (z.onResponse stats c resp draw)
      (if classifyStatus resp.status = .retryAfterBackoff then some (.busy resp.status) else none)
      none
      (if classifyStatus resp.status = .success ∧ z.isUnpaid (.ofResponse resp) then
        some (.ofResponse resp) else none)
      (if classifyStatus resp.status = .retryAfterBackoff ∧ c.attempt < z.policy.maxRetries then
        some ⟨c.attempt, resp.header "retry-after"⟩ else none) := by
  have hout : c.isOut = true := by
    unfold S3Call.isOut
    rw [h]
  unfold S3Settings.onResponse
  cases classifyStatus resp.status with
  | success =>
    simp only [reduceCtorEq, if_false, true_and, false_and]
    exact .hears h _
  | fatal =>
    simp only [reduceCtorEq, if_false, false_and]
    exact .refused h _
  | retryAfterBackoff =>
    have hlast : (z.retry c.kind c.label).isLast c.attempt (.busy resp.status)
        = z.policy.exhausted c.attempt := Bool.false_or _
    simp only [reduceCtorEq, if_true, if_false, false_and, true_and]
    split
    · next hover =>
      have hlate : ¬ c.attempt < z.policy.maxRetries := fun hgoes =>
        Bool.eq_false_iff.mp (z.policy.exhausted_eq_false_iff.mpr hgoes) hover
      rw [if_neg hlate]
      exact .fails hout _ (hlast.trans hover) _ rfl
    · next hgoes =>
      have hfalse := Bool.eq_false_iff.mpr hgoes
      rw [if_pos (z.policy.exhausted_eq_false_iff.mp hfalse)]
      exact .retries hout _ (hlast.trans hfalse) (resp.header "retry-after") draw

/-- After the body. -/
theorem of_onBody {head : RespMeta} (h : c.phase = .reading head) (bytes : List UInt8) :
    CallTurn z stats c (z.onBody stats c head bytes, []) (some (.body head bytes))
      (c.spoiled z.md5 (.body bytes)) none none := by
  obtain ⟨kind, label, attempt, phase⟩ := c
  obtain rfl : phase = .reading head := h
  unfold S3Settings.onBody S3Call.spoiled
  cases kind with
  | list => exact .delivers head bytes rfl rfl
  | get =>
    dsimp only
    have hreport : (z.retry .get label).report attempt (.body head bytes)
        = (verifyIntegrity z.md5 label bytes head.etag head.contentLength).map
          fun _ => ⟨bytes, head.etag, head.requestCharged⟩ := rfl
    cases hverify : verifyIntegrity z.md5 label bytes head.etag head.contentLength with
    | error e => exact .spoils head bytes rfl e (by rw [hreport, hverify]; rfl)
    | ok _ => exact .delivers head bytes rfl (by rw [hreport, hverify]; rfl)

/-- **Each turn of a call is one of these.** -/
theorem of_callStep (i : CallInput) :
    CallTurn z stats c (z.callStep stats c i) (c.ending i) (c.spoiled z.md5 i) (c.unpaid z i)
      (c.setback z i) := by
  obtain ⟨kind, label, attempt, phase⟩ := c
  cases phase with
  | pacing =>
    cases i with
    | slept draw => cases kind <;> exact .sends rfl
    | _ => cases kind <;> exact .quiet
  | sent =>
    cases i with
    | answered resp draw => cases kind <;> exact of_onResponse stats _ rfl resp draw
    | sendFailed e draw => cases kind <;> exact of_retryTransport stats _ rfl e draw
    | _ => cases kind <;> exact .quiet
  | reading head =>
    cases i with
    | body bytes => exact of_onBody stats _ rfl bytes
    | bodyFailed e draw => cases kind <;> exact of_retryTransport stats _ rfl e draw
    | _ => cases kind <;> exact .quiet
  | refused status =>
    cases i with
    | text t => cases kind <;> exact .fails rfl _ rfl _ rfl
    | _ => cases kind <;> exact .quiet
  | backingOff =>
    cases i with
    | slept draw => cases kind <;> exact .wakes rfl draw
    | _ => cases kind <;> exact .quiet
  | settled result => cases kind <;> cases i <;> exact .quiet

end CallTurn

/-! ## A call is a bounded number of attempts -/

/-- The present attempt of the call has come to an end. -/
def S3Call.isBetween (c : S3Call) : Bool :=
  match c.phase with
  | .backingOff => true
  | .settled _ => true
  | _ => false

/-- **A call is as its attempts are**: its result is what they come to, no attempt is made
after the last, and they are counted. -/
structure S3Call.Follows (z : S3Settings) (c : S3Call) (ends : List AttemptEnd) : Prop where
  outcome_eq : (z.retry c.kind c.label).outcome ends = c.result?
  before : (z.retry c.kind c.label).outcome ends.dropLast = none
  attempts : c.attempt + c.isBetween.toNat = ends.length

namespace S3Call.Follows

variable {z : S3Settings} {c : S3Call} {ends : List AttemptEnd}

theorem start (kind : RequestKind) (label : String) :
    S3Call.Follows z ⟨kind, label, 0, .pacing⟩ [] := ⟨rfl, rfl, rfl⟩

/-- A turn that ends no attempt. -/
theorem quiet (h : c.Follows z ends) {c' : S3Call} (hkind : c'.kind = c.kind)
    (hlabel : c'.label = c.label) (hresult : c'.result? = c.result?)
    (hattempt : c'.attempt + c'.isBetween.toNat = c.attempt + c.isBetween.toNat) :
    c'.Follows z ends := by
  constructor
  · rw [hkind, hlabel, hresult]
    exact h.outcome_eq
  · rw [hkind, hlabel]
    exact h.before
  · rw [hattempt]
    exact h.attempts

/-- A request that is out is one that has come to nothing yet. -/
theorem of_isOut (h : c.Follows z ends) (hout : c.isOut = true) :
    (z.retry c.kind c.label).outcome ends = none ∧ c.attempt = ends.length := by
  have hresult := h.outcome_eq
  have hattempts := h.attempts
  unfold S3Call.result? at hresult
  unfold S3Call.isBetween at hattempts
  unfold S3Call.isOut at hout
  split at hout
  · next hphase => rw [hphase] at hresult hattempts; exact ⟨hresult, hattempts⟩
  · next hphase => rw [hphase] at hresult hattempts; exact ⟨hresult, hattempts⟩
  · next hphase => rw [hphase] at hresult hattempts; exact ⟨hresult, hattempts⟩
  · cases hout

/-- A turn that ends an attempt, and goes on to another or returns. -/
theorem ended (h : c.Follows z ends) (hout : c.isOut = true) (a : AttemptEnd) {c' : S3Call}
    (hkind : c'.kind = c.kind) (hlabel : c'.label = c.label) (hattempt : c'.attempt = c.attempt)
    (hbetween : c'.isBetween = true)
    (hresult : c'.result? = if (z.retry c.kind c.label).isLast c.attempt a then
      some ((z.retry c.kind c.label).report c.attempt a) else none) :
    c'.Follows z (ends ++ [a]) := by
  obtain ⟨hnone, hlength⟩ := h.of_isOut hout
  constructor
  · rw [hkind, hlabel, BoundedRetry.outcome_concat a hnone, hresult, hlength]
  · rw [hkind, hlabel, List.dropLast_concat]
    exact hnone
  · rw [hattempt, hbetween, hlength, List.length_append]
    rfl

/-- **A turn keeps a call as its attempts are.** -/
theorem step (h : c.Follows z ends) (stats : TransferSnapshot) (i : CallInput) :
    (z.callStep stats c i).1.2.Follows z (ends ++ (c.ending i).toList) := by
  have hturn := CallTurn.of_callStep (z := z) stats c i
  generalize z.callStep stats c i = t, c.ending i = a, c.spoiled z.md5 i = b,
    c.unpaid z i = u, c.setback z i = v at hturn
  cases hturn with
  | quiet => rw [Option.toList_none, List.append_nil]; exact h
  | sends hphase =>
    rw [Option.toList_none, List.append_nil]
    refine h.quiet rfl rfl ?_ ?_
    · unfold S3Call.result?
      rw [hphase]
    · unfold S3Call.isBetween
      rw [hphase]
  | hears hphase head =>
    rw [Option.toList_none, List.append_nil]
    refine h.quiet rfl rfl ?_ ?_
    · unfold S3Call.result?
      rw [hphase]
    · unfold S3Call.isBetween
      rw [hphase]
  | refused hphase status =>
    rw [Option.toList_none, List.append_nil]
    refine h.quiet rfl rfl ?_ ?_
    · unfold S3Call.result?
      rw [hphase]
    · unfold S3Call.isBetween
      rw [hphase]
  | retries hout a hlast hint draw => exact h.ended hout a rfl rfl rfl rfl (by rw [hlast]; rfl)
  | fails hout a hlast e he => exact h.ended hout a rfl rfl rfl rfl (by rw [hlast, he]; rfl)
  | delivers head bytes hphase hok =>
    refine h.ended (by unfold S3Call.isOut; rw [hphase]) _ rfl rfl rfl rfl ?_
    rw [hok]
    rfl
  | spoils head bytes hphase e he =>
    refine h.ended (by unfold S3Call.isOut; rw [hphase]) _ rfl rfl rfl rfl ?_
    rw [he]
    rfl
  | wakes hphase draw =>
    rw [Option.toList_none, List.append_nil]
    refine h.quiet rfl rfl ?_ ?_
    · unfold S3Call.result?
      rw [hphase]
    · unfold S3Call.isBetween
      rw [hphase]
      rfl

/-- The attempts before the present one were all retried, within the budget. -/
theorem attempt_le (h : c.Follows z ends) : c.attempt ≤ z.policy.maxRetries := by
  have hattempts := h.attempts
  have hbefore := (BoundedRetry.outcome_eq_none_iff.mp h.before).2
  have hbudget : (z.retry c.kind c.label).budget = z.policy.maxRetries := rfl
  rw [List.length_dropLast, hbudget] at hbefore
  cases hbetween : c.isBetween with
  | true =>
    rw [hbetween, Bool.toNat_true] at hattempts
    omega
  | false =>
    rw [hbetween, Bool.toNat_false, Nat.add_zero] at hattempts
    have hnone : (z.retry c.kind c.label).outcome ends = none := by
      rw [h.outcome_eq]
      unfold S3Call.result?
      unfold S3Call.isBetween at hbetween
      split
      · next hphase => rw [hphase] at hbetween; cases hbetween
      · rfl
    rw [hattempts]
    exact (BoundedRetry.outcome_eq_none_iff.mp hnone).2

end S3Call.Follows

namespace S3Client

variable (z : S3Settings)

section Turn

variable {z} {s : S3Client} {n : ℕ}

theorem step_turn_of_none (h : s.calls[n]? = none) (i : CallInput) :
    s.step z (.turn n i) = (s, []) := by
  unfold S3Client.step
  dsimp only
  rw [h]

theorem step_turn_of_some {c : S3Call} (h : s.calls[n]? = some c) (i : CallInput) :
    s.step z (.turn n i)
      = ({ stats := (z.callStep s.stats c i).1.1
           calls := s.calls.set n (z.callStep s.stats c i).1.2 },
          (z.callStep s.stats c i).2.map fun e => (n, e)) := by
  unfold S3Client.step
  dsimp only
  rw [h]

variable {β : Type} (f : S3Call → CallInput → Option β)

theorem ofCall_turn_of_none (h : s.calls[n]? = none) (m : ℕ) (i : CallInput) :
    ofCall f m s (.turn n i) = none := by
  unfold ofCall
  dsimp only
  rw [h, Option.bind_none, ite_self]

theorem ofCall_turn_self {c : S3Call} (h : s.calls[n]? = some c) (i : CallInput) :
    ofCall f n s (.turn n i) = f c i := by
  unfold ofCall
  dsimp only
  rw [if_pos rfl, h, Option.bind_some]

theorem ofCall_turn_of_ne {m : ℕ} (h : n ≠ m) (i : CallInput) :
    ofCall f m s (.turn n i) = none := if_neg h

end Turn

/-- What holds of each call, and of each number that no call has. -/
structure EachCall (made : ℕ → S3Call → Prop) (unmade : ℕ → Prop) (s : S3Client) : Prop where
  each : ∀ n (c : S3Call), s.calls[n]? = some c → made n c
  rest : ∀ n, s.calls[n]? = none → unmade n

namespace EachCall

variable {made made' : ℕ → S3Call → Prop} {unmade unmade' : ℕ → Prop} {s : S3Client}

/-- A call that is made has the number after the last. -/
theorem begun (h : EachCall made unmade s) {c : S3Call}
    (hnew : unmade s.calls.length → made' s.calls.length c)
    (hmade : ∀ n c, n ≠ s.calls.length → made n c → made' n c)
    (hunmade : ∀ n, n ≠ s.calls.length → unmade n → unmade' n) :
    EachCall made' unmade' { s with calls := s.calls ++ [c] } := by
  constructor
  · intro n c' hc'
    rw [List.getElem?_append] at hc'
    split at hc'
    · next hlt => exact hmade n c' hlt.ne (h.each n c' hc')
    · next hge =>
      rw [List.getElem?_singleton] at hc'
      split at hc'
      · next hzero =>
        obtain rfl := Option.some.inj hc'
        obtain rfl : n = s.calls.length := by omega
        exact hnew (h.rest _ (List.getElem?_eq_none le_rfl))
      · cases hc'
  · intro n hn
    rw [List.getElem?_eq_none_iff, List.length_append, List.length_singleton] at hn
    exact hunmade n (by omega) (h.rest n (List.getElem?_eq_none (Nat.le_of_add_right_le hn)))

/-- A call that takes its turn leaves the others as they are. -/
theorem turned (h : EachCall made unmade s) {m : ℕ} {c c' : S3Call} (hm : s.calls[m]? = some c)
    (stats : TransferSnapshot) (hown : made m c → made' m c')
    (hmade : ∀ n c, m ≠ n → made n c → made' n c) (hunmade : ∀ n, m ≠ n → unmade n → unmade' n) :
    EachCall made' unmade' { stats := stats, calls := s.calls.set m c' } := by
  have hlt : m < s.calls.length := (List.getElem?_eq_some_iff.mp hm).1
  constructor
  · intro n d hd
    by_cases hmn : m = n
    · subst hmn
      rw [List.getElem?_set_self hlt] at hd
      obtain rfl := Option.some.inj hd
      exact hown (h.each m c hm)
    · rw [List.getElem?_set_ne hmn] at hd
      exact hmade n d hmn (h.each n d hd)
  · intro n hn
    have hmn : m ≠ n := by
      rintro rfl
      rw [List.getElem?_set_self hlt] at hn
      cases hn
    rw [List.getElem?_set_ne hmn] at hn
    exact hunmade n hmn (h.rest n hn)

end EachCall

/-- The calls are as their attempts are, and those that are not made have none. -/
def Follows (s : S3Client) (ends : ℕ → List AttemptEnd) : Prop :=
  EachCall (fun n c => c.Follows z (ends n)) (fun n => ends n = []) s

variable {z} in
theorem Follows.step {s : S3Client} {ends : ℕ → List AttemptEnd} (h : Follows z s ends)
    (i : ClientInput) :
    Follows z (s.step z i).1 (fun n => ends n ++ (endingOf n s i).toList) := by
  unfold Follows endingOf
  cases i with
  | begin kind label draw =>
    refine h.begun (fun hnew => ?_) (fun n c _ hc => ?_) (fun n _ hn => ?_)
    · show S3Call.Follows z _ (ends s.calls.length ++ [])
      rw [hnew]
      exact .start kind label
    · show S3Call.Follows z c (ends n ++ [])
      rw [List.append_nil]
      exact hc
    · show ends n ++ [] = []
      rw [List.append_nil]
      exact hn
  | turn m x =>
    cases hm : s.calls[m]? with
    | none =>
      simp only [step_turn_of_none hm, ofCall_turn_of_none _ hm, Option.toList_none,
        List.append_nil]
      exact h
    | some c =>
      rw [step_turn_of_some hm]
      refine h.turned hm _ (fun hc => ?_) (fun n c' hmn hc' => ?_) (fun n hmn hn => ?_)
      · dsimp only
        rw [ofCall_turn_self _ hm]
        exact hc.step s.stats x
      · dsimp only
        rw [ofCall_turn_of_ne _ hmn, Option.toList_none, List.append_nil]
        exact hc'
      · dsimp only
        rw [ofCall_turn_of_ne _ hmn, Option.toList_none, List.append_nil]
        exact hn

theorem follows_run (is : List ClientInput) :
    Follows z ((machine z).run new is).1 (fun n => ends z n is) := by
  induction is using List.reverseRecOn with
  | nil => exact ⟨fun n c hc => (by cases hc), fun _ _ => rfl⟩
  | append_singleton is i ih =>
    have hends : (fun n => ends z n (is ++ [i]))
        = fun n => ends z n is ++ (endingOf n ((machine z).run new is).1 i).toList := by
      funext n
      exact Machine.collect_append_singleton _ _ _ _ _
    rw [hends, Machine.run_append_singleton]
    exact ih.step i

/-- The call that is made, if the input makes one. -/
def made? : ClientInput → Option (RequestKind × String)
  | .begin kind label _ => some (kind, label)
  | .turn _ _ => none

/-- The calls of a client are those that were made. -/
theorem calls_run (is : List ClientInput) :
    ((machine z).run new is).1.calls.map (fun c => (c.kind, c.label)) = is.filterMap made? := by
  induction is using List.reverseRecOn with
  | nil => rfl
  | append_singleton is i ih =>
    rw [Machine.run_append_singleton, List.filterMap_append, ← ih]
    generalize ((machine z).run new is).1 = s
    cases i with
    | begin kind label draw => exact List.map_append
    | turn m x =>
      rw [List.filterMap_cons_none rfl, List.filterMap_nil, List.append_nil]
      show List.map _ (s.step z (.turn m x)).1.calls = _
      cases hm : s.calls[m]? with
      | none => rw [step_turn_of_none hm]
      | some c =>
        rw [step_turn_of_some hm]
        have hsame : (c.kind, c.label)
            = ((z.callStep s.stats c x).1.2.kind, (z.callStep s.stats c x).1.2.label) := by
          have hturn := CallTurn.of_callStep (z := z) s.stats c x
          generalize z.callStep s.stats c x = t, c.ending x = a, c.spoiled z.md5 x = b,
            c.unpaid z x = u, c.setback z x = v at hturn
          cases hturn <;> rfl
        obtain ⟨hlt, rfl⟩ := List.getElem?_eq_some_iff.mp hm
        rw [List.map_set, ← hsame]
        have hmap := List.getElem_map (fun c : S3Call => (c.kind, c.label))
          (h := (by rwa [List.length_map] : m < (s.calls.map _).length))
        rw [← hmap]
        exact List.set_getElem_self _

/-- **What a call comes to is what a bounded number of attempts come to.** However the
turns of the calls of a client interleave, the result of each call – once there is one –
is what its own attempts come to: all of them but the last could be retried and were,
not more often than the policy allows, and the last one is final or the end of the
budget, and is what is reported. The calls are those that were made. -/
theorem settled_run (is : List ClientInput) :
    (∀ n c, ((machine z).run new is).1.calls[n]? = some c →
      (∀ result, c.phase = .settled result →
        ∃ before a, ends z n is = before ++ [a]
          ∧ (∀ b ∈ before, (z.retry c.kind c.label).isFinal b = false)
          ∧ before.length ≤ z.policy.maxRetries
          ∧ ((z.retry c.kind c.label).isFinal a = true ∨ before.length = z.policy.maxRetries)
          ∧ result = (z.retry c.kind c.label).report before.length a)
      ∧ ((∀ result, c.phase ≠ .settled result) →
        (∀ b ∈ ends z n is, (z.retry c.kind c.label).isFinal b = false)
          ∧ (ends z n is).length ≤ z.policy.maxRetries))
      ∧ ((machine z).run new is).1.calls.map (fun c => (c.kind, c.label))
        = is.filterMap made? := by
  refine ⟨fun n c hc => ?_, calls_run z is⟩
  have hfollows := (follows_run z is).each n c hc
  constructor
  · intro result hphase
    have hresult : c.result? = some result := by
      unfold S3Call.result?
      rw [hphase]
    exact BoundedRetry.exists_last hfollows.before (hfollows.outcome_eq.trans hresult)
  · intro hgoes
    have hresult : c.result? = none := by
      unfold S3Call.result?
      split
      · next result hphase => exact absurd hphase (hgoes result)
      · rfl
    exact BoundedRetry.outcome_eq_none_iff.mp (hfollows.outcome_eq.trans hresult)

end S3Client

/-! ## The counters -/

/-- Where an entry of a list is replaced, a sum over the list changes as the entry does. -/
theorem List.sum_map_set {α : Type} (f : α → ℕ) {l : List α} {n : ℕ} {a : α}
    (h : l[n]? = some a) (b : α) :
    ((l.set n b).map f).sum + f a = (l.map f).sum + f b := by
  induction l generalizing n with
  | nil => cases h
  | cons c l ih =>
    cases n with
    | zero =>
      obtain rfl := Option.some.inj h
      rw [List.set_cons_zero, List.map_cons, List.map_cons, List.sum_cons, List.sum_cons]
      omega
    | succ n =>
      rw [List.getElem?_cons_succ] at h
      rw [List.set_cons_succ, List.map_cons, List.map_cons, List.sum_cons, List.sum_cons]
      have hrest := ih h
      omega

namespace S3Call

/-- The requests of the kind that it has sent. -/
def requestsOf (kind : RequestKind) (c : S3Call) : ℕ := if c.kind = kind then c.requests else 0

end S3Call

/-- **What a turn charges**: each counter moves as far as the call's own count does, and as
what the turn brings. -/
structure S3Call.Charges (stats : TransferSnapshot) (c : S3Call) (stats' : TransferSnapshot)
    (c' : S3Call) (spoiled : Option (List UInt8)) (unpaid : Option RespMeta) : Prop where
  getRequests :
    stats'.getRequests + c.requestsOf .get = stats.getRequests + c'.requestsOf .get
  listRequests :
    stats'.listRequests + c.requestsOf .list = stats.listRequests + c'.requestsOf .list
  retries : stats'.retries + c.retries = stats.retries + c'.retries
  bytesIn : stats'.bytesIn + c.bytesReturned
    = stats.bytesIn + c'.bytesReturned + (spoiled.toList.map List.length).sum
  unpaidResponses : stats'.unpaidResponses = stats.unpaidResponses + unpaid.toList.length
  integrityFail : stats'.integrityFail = stats.integrityFail + spoiled.toList.length

namespace S3Call

/-- A call whose request is out has sent one for each attempt. -/
theorem counts_of_isOut {c : S3Call} (h : c.isOut = true) :
    c.requests = c.attempt + 1 ∧ c.retries = c.attempt ∧ c.bytesReturned = 0 := by
  unfold isOut at h
  unfold requests retries bytesReturned
  split at h
  · next hphase => rw [hphase]; exact ⟨rfl, rfl, rfl⟩
  · next hphase => rw [hphase]; exact ⟨rfl, rfl, rfl⟩
  · next hphase => rw [hphase]; exact ⟨rfl, rfl, rfl⟩
  · cases h

variable {stats stats' : TransferSnapshot} {c c' : S3Call}

theorem requestsOf_eq (hkind : c'.kind = c.kind) (hrequests : c'.requests = c.requests)
    (kind : RequestKind) : c'.requestsOf kind = c.requestsOf kind := by
  unfold requestsOf
  rw [hkind, hrequests]

/-- A turn that sends nothing and decides on no retry charges for what it brings. -/
theorem Charges.of_same {spoiled : Option (List UInt8)} {unpaid : Option RespMeta}
    (hkind : c'.kind = c.kind) (hrequests : c'.requests = c.requests)
    (hretries : c'.retries = c.retries) (hget : stats'.getRequests = stats.getRequests)
    (hlist : stats'.listRequests = stats.listRequests) (hretry : stats'.retries = stats.retries)
    (hbytes : stats'.bytesIn + c.bytesReturned
      = stats.bytesIn + c'.bytesReturned + (spoiled.toList.map List.length).sum)
    (hunpaid : stats'.unpaidResponses = stats.unpaidResponses + unpaid.toList.length)
    (hfailed : stats'.integrityFail = stats.integrityFail + spoiled.toList.length) :
    Charges stats c stats' c' spoiled unpaid where
  getRequests := by rw [requestsOf_eq hkind hrequests, hget]
  listRequests := by rw [requestsOf_eq hkind hrequests, hlist]
  retries := by rw [hretries, hretry]
  bytesIn := hbytes
  unpaidResponses := hunpaid
  integrityFail := hfailed

/-- A request that is sent is counted under its kind. -/
theorem Charges.of_sends (kind : RequestKind) (label : String) (attempt : ℕ) :
    Charges stats ⟨kind, label, attempt, .pacing⟩ (S3Settings.countRequest stats kind)
      ⟨kind, label, attempt, .sent⟩ none none := by
  cases kind with
  | get =>
    refine ⟨?_, rfl, rfl, rfl, rfl, rfl⟩
    show stats.getRequests + 1 + attempt = stats.getRequests + (attempt + 1)
    omega
  | list =>
    refine ⟨rfl, ?_, rfl, rfl, rfl, rfl⟩
    show stats.listRequests + 1 + attempt = stats.listRequests + (attempt + 1)
    omega

/-- **A turn charges what it does.** -/
theorem charges_callStep (z : S3Settings) (stats : TransferSnapshot) (c : S3Call)
    (i : CallInput) :
    Charges stats c (z.callStep stats c i).1.1 (z.callStep stats c i).1.2 (c.spoiled z.md5 i)
      (c.unpaid z i) := by
  have hturn := CallTurn.of_callStep (z := z) stats c i
  generalize z.callStep stats c i = t, c.ending i = a, c.spoiled z.md5 i = b,
    c.unpaid z i = u, c.setback z i = v at hturn
  cases hturn with
  | quiet => exact .of_same rfl rfl rfl rfl rfl rfl rfl rfl rfl
  | sends hphase =>
    obtain ⟨kind, label, attempt, phase⟩ := c
    obtain rfl : phase = .pacing := hphase
    exact .of_sends kind label attempt
  | hears hphase head =>
    obtain ⟨kind, label, attempt, phase⟩ := c
    obtain rfl : phase = .sent := hphase
    cases z.isUnpaid head <;> exact .of_same rfl rfl rfl rfl rfl rfl rfl rfl rfl
  | refused hphase status =>
    obtain ⟨kind, label, attempt, phase⟩ := c
    obtain rfl : phase = .sent := hphase
    exact .of_same rfl rfl rfl rfl rfl rfl rfl rfl rfl
  | retries hout a hlast hint draw =>
    obtain ⟨hrequests, hretries, hbytes⟩ := counts_of_isOut hout
    have hsame : ∀ kind, requestsOf kind { c with phase := .backingOff } = c.requestsOf kind :=
      requestsOf_eq rfl hrequests.symm
    refine ⟨by rw [hsame], by rw [hsame], ?_, ?_, rfl, rfl⟩
    · rw [hretries]
      show stats.retries + 1 + c.attempt = stats.retries + (c.attempt + 1)
      omega
    · rw [hbytes]
      rfl
  | fails hout a hlast e he =>
    obtain ⟨hrequests, hretries, hbytes⟩ := counts_of_isOut hout
    exact .of_same rfl hrequests.symm hretries.symm rfl rfl rfl (by rw [hbytes]; rfl) rfl rfl
  | delivers head bytes hphase hok =>
    obtain ⟨hrequests, hretries, hbytes⟩ := counts_of_isOut (c := c)
      (by unfold isOut; rw [hphase])
    exact .of_same rfl hrequests.symm hretries.symm rfl rfl rfl (by rw [hbytes]; rfl) rfl rfl
  | spoils head bytes hphase e he =>
    obtain ⟨hrequests, hretries, hbytes⟩ := counts_of_isOut (c := c)
      (by unfold isOut; rw [hphase])
    exact .of_same rfl hrequests.symm hretries.symm rfl rfl rfl (by rw [hbytes]; rfl) rfl rfl
  | wakes hphase draw =>
    obtain ⟨kind, label, attempt, phase⟩ := c
    obtain rfl : phase = .backingOff := hphase
    exact .of_same rfl rfl rfl rfl rfl rfl rfl rfl rfl

end S3Call

namespace S3Client

/-- **The counters add up over the calls**; the bodies that were not what was asked for,
and the heads that say nothing of a charge, are those of the run. -/
structure Charged (s : S3Client) (spoiled : List (List UInt8)) (unpaid : List RespMeta) :
    Prop where
  getRequests : s.stats.getRequests = (s.calls.map (S3Call.requestsOf .get)).sum
  listRequests : s.stats.listRequests = (s.calls.map (S3Call.requestsOf .list)).sum
  retries : s.stats.retries = (s.calls.map S3Call.retries).sum
  bytesIn : s.stats.bytesIn
    = (s.calls.map S3Call.bytesReturned).sum + (spoiled.map List.length).sum
  unpaidResponses : s.stats.unpaidResponses = unpaid.length
  integrityFail : s.stats.integrityFail = spoiled.length

variable (z : S3Settings)

variable {z} in
theorem Charged.turn {s : S3Client} {spoiled : List (List UInt8)} {unpaid : List RespMeta}
    (h : s.Charged spoiled unpaid) {n : ℕ} {c : S3Call} (hc : s.calls[n]? = some c)
    (i : CallInput) :
    Charged
      { stats := (z.callStep s.stats c i).1.1
        calls := s.calls.set n (z.callStep s.stats c i).1.2 }
      (spoiled ++ (c.spoiled z.md5 i).toList) (unpaid ++ (c.unpaid z i).toList) := by
  have hcharges := S3Call.charges_callStep z s.stats c i
  generalize (z.callStep s.stats c i).1.1 = stats', (z.callStep s.stats c i).1.2 = c'
    at hcharges
  have hset := fun f : S3Call → ℕ => List.sum_map_set f hc c'
  constructor
  · have h1 := hset (S3Call.requestsOf .get)
    have h2 := hcharges.getRequests
    have h3 := h.getRequests
    dsimp only
    omega
  · have h1 := hset (S3Call.requestsOf .list)
    have h2 := hcharges.listRequests
    have h3 := h.listRequests
    dsimp only
    omega
  · have h1 := hset S3Call.retries
    have h2 := hcharges.retries
    have h3 := h.retries
    dsimp only
    omega
  · have h1 := hset S3Call.bytesReturned
    have h2 := hcharges.bytesIn
    have h3 := h.bytesIn
    rw [List.map_append, List.sum_append]
    dsimp only
    omega
  · rw [List.length_append, ← h.unpaidResponses]
    exact hcharges.unpaidResponses
  · rw [List.length_append, ← h.integrityFail]
    exact hcharges.integrityFail

variable {z} in
theorem Charged.step {s : S3Client} {spoiled : List (List UInt8)} {unpaid : List RespMeta}
    (h : s.Charged spoiled unpaid) (i : ClientInput) :
    Charged (s.step z i).1 (spoiled ++ (ofTurn (S3Call.spoiled z.md5) s i).toList)
      (unpaid ++ (ofTurn (S3Call.unpaid z) s i).toList) := by
  cases i with
  | begin kind label draw =>
    show Charged { s with calls := s.calls ++ [⟨kind, label, 0, .pacing⟩] } (spoiled ++ [])
      (unpaid ++ [])
    rw [List.append_nil, List.append_nil]
    have hzero : ∀ f : S3Call → ℕ, f ⟨kind, label, 0, .pacing⟩ = 0 →
        ((s.calls ++ [(⟨kind, label, 0, .pacing⟩ : S3Call)]).map f).sum = (s.calls.map f).sum := by
      intro f hf
      rw [List.map_append, List.sum_append, List.map_singleton, List.sum_singleton, hf,
        Nat.add_zero]
    constructor
    · rw [hzero _ (ite_self _)]
      exact h.getRequests
    · rw [hzero _ (ite_self _)]
      exact h.listRequests
    · rw [hzero S3Call.retries rfl]
      exact h.retries
    · rw [hzero S3Call.bytesReturned rfl]
      exact h.bytesIn
    · exact h.unpaidResponses
    · exact h.integrityFail
  | turn n x =>
    unfold ofTurn
    dsimp only
    cases hc : s.calls[n]? with
    | none =>
      rw [step_turn_of_none hc, Option.bind_none, Option.bind_none, Option.toList_none,
        Option.toList_none, List.append_nil, List.append_nil]
      exact h
    | some c =>
      rw [step_turn_of_some hc]
      exact h.turn hc x

theorem charged_run (is : List ClientInput) :
    Charged ((machine z).run new is).1
      ((machine z).collect (ofTurn (S3Call.spoiled z.md5)) new is)
      ((machine z).collect (ofTurn (S3Call.unpaid z)) new is) := by
  induction is using List.reverseRecOn with
  | nil => exact ⟨rfl, rfl, rfl, rfl, rfl, rfl⟩
  | append_singleton is i ih =>
    rw [Machine.run_append_singleton, Machine.collect_append_singleton,
      Machine.collect_append_singleton]
    exact ih.step i

end S3Client

namespace S3Call

/-- It waits to send a request. -/
def isWaiting (c : S3Call) : Bool :=
  match c.phase with
  | .pacing => true
  | .backingOff => true
  | _ => false

/-- Each request but the first is a retry; a call that waits has one before it. -/
theorem requests_add (c : S3Call) :
    c.requestsOf .get + c.requestsOf .list + c.isWaiting.toNat = c.retries + 1 := by
  obtain ⟨kind, label, attempt, phase⟩ := c
  cases kind <;> cases phase <;> simp [requestsOf, requests, retries, isWaiting]

/-- No more retries are decided on than the policy allows. -/
theorem Follows.retries_le {z : S3Settings} {c : S3Call} {ends : List AttemptEnd}
    (h : c.Follows z ends) : c.retries ≤ z.policy.maxRetries := by
  have hle := h.attempt_le
  have hresult := h.outcome_eq
  have hattempts := h.attempts
  unfold result? at hresult
  unfold isBetween at hattempts
  unfold retries
  split
  · next hphase =>
    rw [hphase] at hresult hattempts
    have hlength := (BoundedRetry.outcome_eq_none_iff.mp hresult).2
    exact hattempts.trans_le hlength
  · exact hle

end S3Call

namespace S3Client

variable (z : S3Settings)

/-- The calls that wait to send a request. -/
def waiting (s : S3Client) : ℕ := s.calls.countP S3Call.isWaiting

/-- What is counted of each call counts over the calls. -/
theorem requests_waiting (calls : List S3Call) :
    (calls.map (S3Call.requestsOf .get)).sum + (calls.map (S3Call.requestsOf .list)).sum
        + calls.countP S3Call.isWaiting
      = (calls.map S3Call.retries).sum + calls.length := by
  induction calls with
  | nil => rfl
  | cons c calls ih =>
    have hone := S3Call.requests_add c
    rw [List.map_cons, List.map_cons, List.map_cons, List.sum_cons, List.sum_cons, List.sum_cons,
      List.countP_cons, List.length_cons]
    have hwaits : (if c.isWaiting = true then 1 else 0) = c.isWaiting.toNat := by
      cases c.isWaiting <;> rfl
    rw [hwaits]
    omega

theorem retries_le_of_mem {z : S3Settings} {s : S3Client} {ends : ℕ → List AttemptEnd}
    (h : Follows z s ends) {c : S3Call} (hc : c ∈ s.calls) : c.retries ≤ z.policy.maxRetries := by
  obtain ⟨n, hn⟩ := List.mem_iff_getElem?.mp hc
  exact (h.each n c hn).retries_le

/-- The calls that are as their attempts are have decided on no more retries than they may. -/
theorem sum_retries_le {z : S3Settings} {s : S3Client} {ends : ℕ → List AttemptEnd}
    (h : Follows z s ends) :
    (s.calls.map S3Call.retries).sum ≤ z.policy.maxRetries * s.calls.length := by
  have hsum : (s.calls.map S3Call.retries).sum
      ≤ (s.calls.map S3Call.retries).length * z.policy.maxRetries := by
    refine List.sum_le_card_nsmul _ _ fun k hk => ?_
    obtain ⟨c, hc, rfl⟩ := List.mem_map.mp hk
    exact retries_le_of_mem h hc
  rw [List.length_map, Nat.mul_comm] at hsum
  exact hsum

/-- **The counters tell what the calls have done.** After any run, however the turns of the
calls interleave, the counters of the requests and of the retries are the sums over the
calls, and each request but a call's first is a retry, so that the requests and the
calls that wait for one are as many as the calls and the retries; no call has more
retries than the policy allows. The bytes are those that were returned and those that
failed their check, and the failures are counted; so are the answers that should say
that they were charged and do not. -/
theorem counters_run (is : List ClientInput) :
    Charged ((machine z).run new is).1
        ((machine z).collect (ofTurn (S3Call.spoiled z.md5)) new is)
        ((machine z).collect (ofTurn (S3Call.unpaid z)) new is)
      ∧ ((machine z).run new is).1.stats.getRequests
          + ((machine z).run new is).1.stats.listRequests + ((machine z).run new is).1.waiting
        = ((machine z).run new is).1.calls.length + ((machine z).run new is).1.stats.retries
      ∧ (∀ c ∈ ((machine z).run new is).1.calls, c.retries ≤ z.policy.maxRetries)
      ∧ ((machine z).run new is).1.stats.retries
        ≤ z.policy.maxRetries * ((machine z).run new is).1.calls.length := by
  have hcharged := charged_run z is
  have hfollows := follows_run z is
  refine ⟨hcharged, ?_, fun c hc => retries_le_of_mem hfollows hc, ?_⟩
  · have hsum := requests_waiting ((machine z).run new is).1.calls
    rw [hcharged.getRequests, hcharged.listRequests, hcharged.retries]
    unfold waiting
    omega
  · rw [hcharged.retries]
    exact sum_retries_le hfollows

end S3Client

/-! ## The waits -/

/-- The wait before a request. -/
def CallEffect.paceNs? : CallEffect → Option ℕ
  | .pace ns => some ns
  | .backoff _ => none

/-- The wait before a retry. -/
def CallEffect.backoffNs? : CallEffect → Option ℕ
  | .pace _ => none
  | .backoff ns => some ns

/-- What the server asks for: ten minutes at most, and nothing where it says nothing that
reads as a number of seconds. -/
def Setback.askedNs (b : Setback) : ℕ :=
  match b.retryAfter.bind fun raw => parseU64 (Str.trim raw) with
  | some secs => min secs 600 * 1000000000
  | none => 0

/-- **A wait that a setback calls for**: at least half the ceiling of the attempt's number
and at least what the server asks for, and no longer than the longer of the two. -/
structure Setback.Waited (z : S3Settings) (b : Setback) (ns : ℕ) : Prop where
  half_le : z.policy.ceiling b.attempt / 2 ≤ ns
  asked_le : min b.askedNs z.policy.maxDelayNs ≤ ns
  le : ns ≤ max (z.policy.ceiling b.attempt) (min b.askedNs z.policy.maxDelayNs)
  le_max : ns ≤ z.policy.maxDelayNs

/-- The policy waits as a setback calls for. -/
theorem Setback.waited_delayFor (z : S3Settings) (b : Setback) (draw : ℕ) :
    b.Waited z (z.policy.delayFor b.attempt (b.retryAfter.bind parseRetryAfter) draw) := by
  have hhalf := z.policy.half_le_jittered b.attempt draw
  have hle := z.policy.jittered_le b.attempt draw
  have hceiling := z.policy.ceiling_le b.attempt
  have hasked : b.askedNs = (b.retryAfter.bind parseRetryAfter).getD 0 := by
    unfold askedNs parseRetryAfter
    cases b.retryAfter with
    | none => rfl
    | some raw =>
      rw [Option.bind_some, Option.bind_some]
      cases parseU64 (Str.trim raw) <;> rfl
  unfold RetryPolicy.delayFor
  cases hhint : b.retryAfter.bind parseRetryAfter with
  | none =>
    rw [hhint, Option.getD_none] at hasked
    dsimp only
    exact ⟨hhalf, by omega, by omega, by omega⟩
  | some hinted =>
    rw [hhint, Option.getD_some] at hasked
    dsimp only
    exact ⟨by omega, by omega, by omega, by omega⟩

/-- It waits to send the request. -/
def S3Call.isPacing (c : S3Call) : Bool :=
  match c.phase with
  | .pacing => true
  | _ => false

/-- **A call waits as it should**: once for each request, sent or about to be, within the
bounds of the pace; and once after each setback, of which each attempt that is over
brought one. -/
structure S3Call.Waits (z : S3Settings) (c : S3Call) (setbacks : List Setback)
    (effects : List CallEffect) : Prop where
  paces : (effects.filterMap CallEffect.paceNs?).length = c.requests + c.isPacing.toNat
  paced : ∀ ns ∈ effects.filterMap CallEffect.paceNs?,
    z.pace.minNs ≤ ns ∧ ns ≤ max z.pace.minNs z.pace.maxNs
  backoffs : List.Forall₂ (Setback.Waited z) setbacks (effects.filterMap CallEffect.backoffNs?)
  attempts : setbacks.map Setback.attempt = List.range c.retries

namespace S3Call

/-- A wait for each attempt, the present one with it. -/
theorem requests_add_isPacing (c : S3Call) : c.requests + c.isPacing.toNat = c.attempt + 1 := by
  obtain ⟨kind, label, attempt, phase⟩ := c
  cases phase <;> rfl

namespace Waits

variable {z : S3Settings} {c c' : S3Call} {setbacks : List Setback} {effects : List CallEffect}

theorem start (kind : RequestKind) (label : String) (draw : ℕ) :
    Waits z ⟨kind, label, 0, .pacing⟩ [] [.pace (z.pace.sample draw)] where
  paces := rfl
  paced ns hns := by
    obtain rfl := List.mem_singleton.mp hns
    exact z.pace.sample_bounds draw
  backoffs := .nil
  attempts := rfl

/-- A turn that waits for nothing. -/
theorem same (h : c.Waits z setbacks effects) (hattempt : c'.attempt = c.attempt)
    (hretries : c'.retries = c.retries) : c'.Waits z setbacks effects where
  paces := by rw [h.paces, c.requests_add_isPacing, c'.requests_add_isPacing, hattempt]
  paced := h.paced
  backoffs := h.backoffs
  attempts := by
    rw [hretries]
    exact h.attempts

/-- A turn that waits to send the next request. -/
theorem pace (h : c.Waits z setbacks effects) (hattempt : c'.attempt = c.attempt + 1)
    (hretries : c'.retries = c.retries) (draw : ℕ) :
    c'.Waits z setbacks (effects ++ [.pace (z.pace.sample draw)]) := by
  have hpaces : (effects ++ [CallEffect.pace (z.pace.sample draw)]).filterMap CallEffect.paceNs?
      = effects.filterMap CallEffect.paceNs? ++ [z.pace.sample draw] := List.filterMap_append
  constructor
  · rw [hpaces, List.length_append, h.paces, c.requests_add_isPacing, c'.requests_add_isPacing,
      hattempt]
    rfl
  · intro ns hns
    rw [hpaces, List.mem_append, List.mem_singleton] at hns
    rcases hns with hns | rfl
    · exact h.paced ns hns
    · exact z.pace.sample_bounds draw
  · rw [List.filterMap_append]
    exact (List.append_nil (effects.filterMap CallEffect.backoffNs?)).symm ▸ h.backoffs
  · rw [hretries]
    exact h.attempts

/-- A turn that decides on a retry. -/
theorem backoff (h : c.Waits z setbacks effects) (hattempt : c'.attempt = c.attempt)
    (hbefore : c.retries = c.attempt) (hretries : c'.retries = c.attempt + 1)
    (retryAfter : Option String) (draw : ℕ) :
    c'.Waits z (setbacks ++ [⟨c.attempt, retryAfter⟩])
      (effects ++
        [.backoff (z.policy.delayFor c.attempt (retryAfter.bind parseRetryAfter) draw)]) := by
  constructor
  · rw [List.filterMap_append]
    exact (congrArg List.length (List.append_nil (effects.filterMap CallEffect.paceNs?))).trans
      (by rw [h.paces, c.requests_add_isPacing, c'.requests_add_isPacing, hattempt])
  · rw [List.filterMap_append]
    exact (List.append_nil (effects.filterMap CallEffect.paceNs?)).symm ▸ h.paced
  · rw [List.filterMap_append]
    exact List.rel_append h.backoffs
      (.cons (Setback.waited_delayFor z ⟨c.attempt, retryAfter⟩ draw) .nil)
  · rw [List.map_append, h.attempts, hbefore, hretries, List.range_succ]
    rfl

/-- **A turn waits as it should.** -/
theorem step (h : c.Waits z setbacks effects) (stats : TransferSnapshot) (i : CallInput) :
    (z.callStep stats c i).1.2.Waits z (setbacks ++ (c.setback z i).toList)
      (effects ++ (z.callStep stats c i).2) := by
  have hturn := CallTurn.of_callStep (z := z) stats c i
  generalize z.callStep stats c i = t, c.ending i = a, c.spoiled z.md5 i = b,
    c.unpaid z i = u, c.setback z i = v at hturn
  have hnone : ∀ {d : S3Call}, d.Waits z setbacks effects →
      d.Waits z (setbacks ++ (none : Option Setback).toList) (effects ++ []) := by
    intro d hd
    rw [Option.toList_none, List.append_nil, List.append_nil]
    exact hd
  cases hturn with
  | quiet => exact hnone h
  | sends hphase => exact hnone (h.same rfl (by unfold retries; rw [hphase]))
  | hears hphase head => exact hnone (h.same rfl (by unfold retries; rw [hphase]))
  | refused hphase status => exact hnone (h.same rfl (by unfold retries; rw [hphase]))
  | retries hout a hlast retryAfter draw =>
    have hattempt : S3Call.attempt { c with phase := .backingOff } = c.attempt := rfl
    exact h.backoff hattempt (counts_of_isOut hout).2.1 rfl retryAfter draw
  | fails hout a hlast e he => exact hnone (h.same rfl (counts_of_isOut hout).2.1.symm)
  | delivers head bytes hphase hok =>
    exact hnone (h.same rfl (by unfold retries; rw [hphase]))
  | spoils head bytes hphase e he => exact hnone (h.same rfl (by unfold retries; rw [hphase]))
  | wakes hphase draw =>
    rw [Option.toList_none, List.append_nil]
    exact h.pace rfl (by unfold retries; rw [hphase]) draw

end Waits

end S3Call

namespace S3Client

variable (z : S3Settings)

theorem effectsOf_nil (n : ℕ) : effectsOf n [] = [] := rfl

theorem effectsOf_append (n : ℕ) (effects more : List (ℕ × CallEffect)) :
    effectsOf n (effects ++ more) = effectsOf n effects ++ effectsOf n more :=
  List.filterMap_append

theorem effectsOf_map_self (n : ℕ) (effects : List CallEffect) :
    effectsOf n (effects.map fun e => (n, e)) = effects := by
  unfold effectsOf
  rw [List.filterMap_map]
  simp only [Function.comp_def, if_true, List.filterMap_some]

theorem effectsOf_map_of_ne {m n : ℕ} (h : m ≠ n) (effects : List CallEffect) :
    effectsOf n (effects.map fun e => (m, e)) = [] := by
  unfold effectsOf
  rw [List.filterMap_map, List.filterMap_eq_nil_iff]
  intro e _
  exact if_neg h

/-- The calls wait as they should, and those that are not made for nothing. -/
def Waits (s : S3Client) (setbacks : ℕ → List Setback) (effects : List (ℕ × CallEffect)) : Prop :=
  EachCall (fun n c => c.Waits z (setbacks n) (effectsOf n effects))
    (fun n => setbacks n = [] ∧ effectsOf n effects = []) s

variable {z} in
theorem Waits.step {s : S3Client} {setbacks : ℕ → List Setback}
    {effects : List (ℕ × CallEffect)} (h : Waits z s setbacks effects) (i : ClientInput) :
    Waits z (s.step z i).1 (fun n => setbacks n ++ (ofCall (S3Call.setback z) n s i).toList)
      (effects ++ (s.step z i).2) := by
  unfold Waits
  simp only [effectsOf_append]
  cases i with
  | begin kind label draw =>
    have hother : ∀ n, n ≠ s.calls.length →
        effectsOf n [(s.calls.length, .pace (z.pace.sample draw))] = [] :=
      fun n hn => effectsOf_map_of_ne hn.symm [.pace (z.pace.sample draw)]
    have hown : effectsOf s.calls.length [(s.calls.length, .pace (z.pace.sample draw))]
        = [.pace (z.pace.sample draw)] :=
      effectsOf_map_self s.calls.length [.pace (z.pace.sample draw)]
    refine h.begun (fun hnew => ?_) (fun n c hn hc => ?_) (fun n hn hrest => ?_)
    · show S3Call.Waits z _ (setbacks s.calls.length ++ [])
        (effectsOf s.calls.length effects
          ++ effectsOf s.calls.length [(s.calls.length, .pace (z.pace.sample draw))])
      rw [hnew.1, hnew.2, hown]
      exact .start kind label draw
    · show S3Call.Waits z c (setbacks n ++ []) (effectsOf n effects
        ++ effectsOf n [(s.calls.length, .pace (z.pace.sample draw))])
      rw [hother n hn, List.append_nil, List.append_nil]
      exact hc
    · show setbacks n ++ [] = [] ∧ effectsOf n effects
        ++ effectsOf n [(s.calls.length, .pace (z.pace.sample draw))] = []
      rw [hother n hn, List.append_nil, List.append_nil]
      exact hrest
  | turn m x =>
    cases hm : s.calls[m]? with
    | none =>
      simp only [step_turn_of_none hm, ofCall_turn_of_none _ hm, Option.toList_none,
        effectsOf_nil, List.append_nil]
      exact h
    | some c =>
      rw [step_turn_of_some hm]
      refine h.turned hm _ (fun hc => ?_) (fun n c' hmn hc' => ?_) (fun n hmn hn => ?_)
      · dsimp only
        rw [ofCall_turn_self _ hm, effectsOf_map_self]
        exact hc.step s.stats x
      · dsimp only
        rw [ofCall_turn_of_ne _ hmn, effectsOf_map_of_ne hmn, Option.toList_none,
          List.append_nil, List.append_nil]
        exact hc'
      · dsimp only
        rw [ofCall_turn_of_ne _ hmn, effectsOf_map_of_ne hmn, Option.toList_none,
          List.append_nil, List.append_nil]
        exact hn

theorem snd_run_append_singleton (is : List ClientInput) (i : ClientInput) :
    ((machine z).run new (is ++ [i])).2
      = ((machine z).run new is).2 ++ (((machine z).run new is).1.step z i).2 := by
  rw [Machine.run_append]
  exact congrArg (_ ++ ·) (List.append_nil _)

theorem waits_run (is : List ClientInput) :
    Waits z ((machine z).run new is).1 (fun n => setbacks z n is) ((machine z).run new is).2 := by
  induction is using List.reverseRecOn with
  | nil => exact ⟨fun n c hc => (by cases hc), fun _ _ => ⟨rfl, rfl⟩⟩
  | append_singleton is i ih =>
    have hsetbacks : (fun n => setbacks z n (is ++ [i]))
        = fun n => setbacks z n is
            ++ (ofCall (S3Call.setback z) n ((machine z).run new is).1 i).toList := by
      funext n
      exact Machine.collect_append_singleton _ _ _ _ _
    rw [hsetbacks, Machine.run_append_singleton, snd_run_append_singleton]
    exact ih.step i

/-- The waits before a retry, over all the calls. -/
def backoffsNs (effects : List (ℕ × CallEffect)) : List ℕ :=
  effects.filterMap fun e => e.2.backoffNs?

/-- There is a wait for each retry that a turn decides on, and none is too long. -/
theorem backoffs_callStep (stats : TransferSnapshot) (c : S3Call) (i : CallInput) :
    (z.callStep stats c i).1.1.retries
        = stats.retries + ((z.callStep stats c i).2.filterMap CallEffect.backoffNs?).length
      ∧ ∀ ns ∈ (z.callStep stats c i).2.filterMap CallEffect.backoffNs?,
        ns ≤ z.policy.maxDelayNs := by
  have hturn := CallTurn.of_callStep (z := z) stats c i
  generalize z.callStep stats c i = t, c.ending i = a, c.spoiled z.md5 i = b,
    c.unpaid z i = u, c.setback z i = v at hturn
  cases hturn with
  | sends hphase =>
    refine ⟨?_, fun ns hns => absurd hns List.not_mem_nil⟩
    cases c.kind <;> rfl
  | hears hphase head =>
    refine ⟨?_, fun ns hns => absurd hns List.not_mem_nil⟩
    cases z.isUnpaid head <;> rfl
  | retries hout a hlast retryAfter draw =>
    refine ⟨rfl, fun ns hns => ?_⟩
    obtain rfl := List.mem_singleton.mp hns
    exact (Setback.waited_delayFor z ⟨c.attempt, retryAfter⟩ draw).le_max
  | _ => exact ⟨rfl, fun ns hns => absurd hns List.not_mem_nil⟩

theorem backoffs_step (s : S3Client) (i : ClientInput) :
    (s.step z i).1.stats.retries = s.stats.retries + (backoffsNs (s.step z i).2).length
      ∧ ∀ ns ∈ backoffsNs (s.step z i).2, ns ≤ z.policy.maxDelayNs := by
  cases i with
  | begin kind label draw => exact ⟨rfl, fun ns hns => absurd hns List.not_mem_nil⟩
  | turn n x =>
    cases hc : s.calls[n]? with
    | none =>
      rw [step_turn_of_none hc]
      exact ⟨rfl, fun ns hns => absurd hns List.not_mem_nil⟩
    | some c =>
      rw [step_turn_of_some hc]
      unfold backoffsNs
      rw [List.filterMap_map]
      exact backoffs_callStep z s.stats c x

/-- There is one for each retry that is counted, and none is too long. -/
theorem backoffs_counted (is : List ClientInput) :
    ((machine z).run new is).1.stats.retries
        = (backoffsNs ((machine z).run new is).2).length
      ∧ ∀ ns ∈ backoffsNs ((machine z).run new is).2, ns ≤ z.policy.maxDelayNs := by
  induction is using List.reverseRecOn with
  | nil => exact ⟨rfl, fun ns hns => absurd hns List.not_mem_nil⟩
  | append_singleton is i ih =>
    obtain ⟨hretries, hmax⟩ := backoffs_step z ((machine z).run new is).1 i
    have happend : backoffsNs ((machine z).run new (is ++ [i])).2
        = backoffsNs ((machine z).run new is).2
          ++ backoffsNs (((machine z).run new is).1.step z i).2 := by
      rw [snd_run_append_singleton]
      exact List.filterMap_append
    rw [Machine.run_append_singleton, happend]
    constructor
    · rw [List.length_append, ← ih.1]
      exact hretries
    · intro ns hns
      rcases List.mem_append.mp hns with hns | hns
      · exact ih.2 ns hns
      · exact hmax ns hns

/-- **Each call waits as it should, and none too long.** In any run, however the turns of the
calls interleave, a call is held back within the bounds of the pace once for each of its
requests, and waits once for each of its attempts that came to nothing and may be
repeated: at least half the longest for the attempt's number, at least what the server
asked for with the answer, up to the longest of all, and at most that. The waits are as
many as the retries counted, so in all they take at most as long as the longest for each
retry that the calls are allowed. -/
theorem backoffs_run (is : List ClientInput) :
    (∀ n (c : S3Call), ((machine z).run new is).1.calls[n]? = some c →
        c.Waits z (setbacks z n is) (effectsOf n ((machine z).run new is).2))
      ∧ (backoffsNs ((machine z).run new is).2).length = ((machine z).run new is).1.stats.retries
      ∧ (backoffsNs ((machine z).run new is).2).sum
        ≤ z.policy.maxRetries * ((machine z).run new is).1.calls.length
          * z.policy.maxDelayNs := by
  obtain ⟨hretries, hmax⟩ := backoffs_counted z is
  refine ⟨(waits_run z is).each, hretries.symm, ?_⟩
  have hbound : ((machine z).run new is).1.stats.retries
      ≤ z.policy.maxRetries * ((machine z).run new is).1.calls.length := by
    rw [(charged_run z is).retries]
    exact sum_retries_le (follows_run z is)
  calc (backoffsNs ((machine z).run new is).2).sum
      ≤ (backoffsNs ((machine z).run new is).2).length * z.policy.maxDelayNs :=
        List.sum_le_card_nsmul _ _ hmax
    _ ≤ _ := by
        rw [← hretries]
        exact Nat.mul_le_mul_right _ hbound

/-! ## What is returned -/

end S3Client
