import Aetelier.Driver
import Mathlib.Data.List.Nodup

/-!
# Replaying an archive

The archive adapter opens no socket. A window of days and coins is a plan, a
list of object keys in the order of their hours; a spawn fetches them in that
order, turns the lines of each object into domain events, sends these, and
writes the key to a cursor file once it is through with it. The next spawn
reads the file and goes on behind the key it finds there.

An object that is absent, that fails its integrity check or that does not
decode is passed over, cursor included. Any other failed fetch ends the spawn
where it is, and so do a shutdown and a consumer that hangs up; none of them
moves the cursor.

Fetches run ahead, but their answers are taken in the order of the plan, so
what a spawn meets is a function of the key: the answer of the fetch, the
shutdown signal, the clock. Left out are the metrics, the log and the edge of
the coverage, which only they use.
-/

namespace Str

/-- `str::split` at a character. -/
def split (c : Char) (s : String) : List String := (s.toList.splitOn c).map String.ofList

/-- `str::starts_with`. -/
def startsWith (q s : String) : Bool := q.toList.isPrefixOf s.toList

/-- A line without the carriage return before its end. -/
def stripCr (line : List Char) : List Char :=
  if line.getLast? = some '\r' then line.dropLast else line

/-- `str::lines`: a line feed ends a line, with a carriage return before it
if there is one; what follows the last line feed is a line if it is not
empty. -/
def lines (s : String) : List String :=
  let parts := s.toList.splitOn '\n'
  (parts.dropLast.map stripCr ++ parts.getLast?.toList.filter (· ≠ [])).map String.ofList

/-- `str::parse::<u32>`: decimal digits, with a plus sign before them if
need be. -/
def parseU32 (s : String) : Option ℕ :=
  let digits := match s.toList with
    | '+' :: rest => rest
    | cs => cs
  if digits.isEmpty || !digits.all Char.isDigit || 2 ^ 32 ≤ Crates.ofDigits digits then none
  else some (Crates.ofDigits digits)

end Str

/-! ## Errors of a fetch -/

/-- `EntrepotError`. Texts of other crates stand as they are shown. -/
inductive EntrepotError where
  | transport (text : String)
  | status (code : ℕ) (key body : String)
  | listParse (text : String)
  /-- `notFound` is the kind of the I/O error. -/
  | io (path : String) (notFound : Bool) (text : String)
  | decode (key reason : String)
  | integrity (key reason : String)
  | exhausted (attempts : ℕ) (key last : String)
  | credentials (text : String)
deriving DecidableEq, Repr

namespace EntrepotError

/-- `Display`. -/
def display : EntrepotError → String
  | transport text => "http transport: " ++ text
  | status code key body => "http status " ++ toString code ++ " for " ++ key ++ ": " ++ body
  | listParse text => "list response parse: " ++ text
  | io path _ text => "io on " ++ path ++ ": " ++ text
  | decode key reason => "decode " ++ key ++ ": " ++ reason
  | integrity key reason => "integrity " ++ key ++ ": " ++ reason
  | exhausted attempts key last =>
    "retries exhausted after " ++ toString attempts ++ " attempts for " ++ key ++ ": " ++ last
  | credentials text => "missing credentials: " ++ text

/-- The object does not exist. -/
def objectAbsent : EntrepotError → Bool
  | status code _ _ => code == 404
  | io _ notFound _ => notFound
  | _ => false

/-- The object failed its integrity check. -/
def isIntegrity : EntrepotError → Bool
  | integrity _ _ => true
  | _ => false

end EntrepotError

/-! ## Events and their stamps -/

namespace DomainEvent

/-- `stamp_local`: the receipt clock and, on derivative rows, the receive
counter and the epoch of the connection. -/
def stampLocal (localUs rttUs recvSeq connEpochUs : ℕ) : DomainEvent → DomainEvent
  | book d => book { d with localOrderbookTsUs := localUs, sourceOrderbookRttUs := rttUs }
  | trade t sequence =>
    trade { t with localTradeTsUs := localUs, sourceTradeRttUs := rttUs } sequence
  | fundingRate fr => fundingRate
    { fr with localFundingTsUs := localUs, recvSeq := recvSeq, connEpochUs := connEpochUs }
  | openInterest oi => openInterest
    { oi with localOiTsUs := localUs, recvSeq := recvSeq, connEpochUs := connEpochUs }
  | fundingSettlement fs => fundingSettlement
    { fs with localTsUs := if fs.localTsUs = 0 then localUs else fs.localTsUs }
  | connectionGap dropped => connectionGap dropped

end DomainEvent

/-- Rows of an archive carry no connection's epoch. -/
def archiveConnEpochUs : ℕ := 0

/-- What a line decodes to: its events, and its receipt time if it has one. -/
structure DecodedLine where
  /-- The events. -/
  events : List DomainEvent
  /-- The receipt time. -/
  localTsUs : Option ℕ

/-- Why a line is rejected. -/
inductive LineReject where
  | undecodable (error : String)
  | unsupportedVersion (found : ℕ)

/-! ## The adapter -/

/-- **Days** by number, from the first one there is, and their `%Y%m%d`
text. It is that of the date library: it tells two days apart and holds no
slash. -/
structure Calendar where
  /-- The text of a day. -/
  format : ℕ → String
  /-- Two days have two texts. -/
  format_injective : Function.Injective format
  /-- No text holds a slash. -/
  slash_notMem_format : ∀ date, '/' ∉ (format date).toList

/-- The days and the coins to replay. -/
structure EntrepotWindow where
  /-- The first day. -/
  start : ℕ
  /-- The last day. -/
  endDay : ℕ
  /-- The coins; none stands for all that are listed. -/
  coins : List String

/-- **The archive adapter**, the data types it is spawned for, and the crates
it calls. -/
structure EntrepotAdapter where
  /-- The calendar. -/
  calendar : Calendar
  /-- Decimals. -/
  crates : Crates
  /-- Case tables. -/
  unicode : Unicode
  /-- At most so many bytes of the LZ4 frame in an object; nothing if it is
  malformed, or the decoder panics. -/
  readFrame : ℕ → ByteArray → Option ByteArray
  /-- `DateTime::parse_from_rfc3339`, in microseconds. -/
  parseFromRfc3339 : String → Option ℤ
  /-- The decoder of book lines. -/
  decodeLine : String → Except LineReject DecodedLine
  /-- What to replay. -/
  window : EntrepotWindow
  /-- A cursor file is configured. -/
  cursor : Bool
  /-- The data types declared. -/
  declared : List DeclaredDatatype

/-- **What one spawn meets.** Each of these is a function of the key the loop
is at. -/
structure Attempt where
  /-- The keys listed under a path. -/
  list : String → Except EntrepotError (List String)
  /-- The answer of a fetch. -/
  fetch : String → Except EntrepotError ByteArray
  /-- Shutdown is signalled. -/
  stopped : String → Bool
  /-- The clock, at a line of the object. -/
  now : String → ℕ → ℕ
  /-- How many events the consumer takes before it hangs up, if it does. -/
  room : Option ℕ
  /-- The write of the cursor succeeds. -/
  writes : String → Bool

/-- What a spawn does, in order. -/
inductive ReplayEffect where
  /-- It sends an event. -/
  | sent (ev : DomainEvent)
  /-- The cursor file now holds a key. -/
  | cursor (key : String)

namespace EntrepotAdapter

variable (x : EntrepotAdapter)

/-! ### The plan -/

/-- The key of a day of asset contexts. -/
def assetCtxsKey (day : String) : String := "asset_ctxs/" ++ day ++ ".csv.lz4"

/-- The key of an hour of a coin's book. -/
def l2bookKey (day : String) (hour : ℕ) (coin : String) : String :=
  "market_data/" ++ day ++ "/" ++ toString hour ++ "/l2Book/" ++ coin ++ ".lz4"

/-- The days of the window. -/
def days : List ℕ := List.range' x.window.start (x.window.endDay + 1 - x.window.start)

/-- Asset contexts are wanted. -/
def wantCtx : Bool :=
  x.declared.contains .fundingRates || x.declared.contains .openInterest

/-- The key of the contexts of a day, if they are wanted. -/
def ctxKeys (date : ℕ) : List String :=
  if x.wantCtx then [assetCtxsKey (x.calendar.format date)] else []

/-- **The plan** of a window with coins: day by day the contexts, then hour
by hour the coins. -/
def plannedKeys : List String :=
  x.days.flatMap (fun date => x.ctxKeys date ++ (List.range 24).flatMap (fun hour =>
    x.window.coins.map (l2bookKey (x.calendar.format date) hour)))

/-- The hour and the coin of a listed key. -/
def parseL2bookKey (key : String) : Option (ℕ × String) :=
  match Str.split '/' key with
  | ["market_data", _, hour, "l2Book", file] => do
    let hour ← Str.parseU32 hour
    let coin ← Str.stripSuffix ".lz4" file
    some (hour, coin)
  | _ => none

/-- The order of the pairs: by hour, then by coin. -/
def hourCoinLe (a b : ℕ × String) : Bool := a.1 < b.1 || (a.1 == b.1 && decide (a.2 ≤ b.2))

/-- The plan of a day without coins: what is listed. -/
def listedKeys (list : String → Except EntrepotError (List String)) (date : ℕ) :
    Except EntrepotError (List String) := do
  let day := x.calendar.format date
  let listed ← list ("market_data/" ++ day ++ "/")
  let hourCoins := (listed.filterMap parseL2bookKey).mergeSort hourCoinLe
  return x.ctxKeys date ++ hourCoins.map (fun hc => l2bookKey day hc.1 hc.2)

/-- **The plan of a spawn.** -/
def enumerateWindow (list : String → Except EntrepotError (List String)) :
    Except EntrepotError (List String) := do
  if !x.window.coins.isEmpty then return x.plannedKeys
  else
    let parts ← x.days.mapM (x.listedKeys list)
    return parts.flatten

/-- **Where to go on**: behind the key the cursor file holds, or at the
beginning if it holds none of the plan. -/
def resumeIndex (cursor : Option String) (keys : List String) : ℕ :=
  match cursor with
  | none => 0
  | some raw =>
    if Str.trim raw = "" then 0
    else match keys.findIdx? (fun key => key == Str.trim raw) with
      | some pos => pos + 1
      | none => 0

/-! ### The events of an object -/

/-- No object inflates past this. -/
def maxDecodedObjectBytes : ℕ := 256 * 2 ^ 20

/-- The bytes of an object. -/
def decodeLz4 (bytes : ByteArray) : Option ByteArray := do
  let out ← x.readFrame (maxDecodedObjectBytes + 1) bytes
  if out.size > maxDecodedObjectBytes then none else some out

/-- The lines of an object. -/
def guardedDecode (bytes : ByteArray) : Option (List String) := do
  let decoded ← x.decodeLz4 bytes
  let text ← String.fromUTF8? decoded
  some (Str.lines text)

/-- The columns of a file of asset contexts. -/
def assetCtxsHeader : String :=
  "time,coin,funding,open_interest,prev_day_px,day_ntl_vlm,premium,oracle_px,mark_px,mid_px,"
    ++ "impact_bid_px,impact_ask_px"

/-- The funding rate of a row, if it is declared and reads as one. -/
def ctxFunding (pair : TradingPair) (tsUs : ℕ) (col : ℕ → String) : List DomainEvent :=
  if x.declared.contains .fundingRates then
    match x.crates.fromStr (col 2) with
    | .ok rate => [.fundingRate {
        fundingRateTsUs := tsUs, localFundingTsUs := 0, recvSeq := 0, connEpochUs := 0
        pair := pair, fundingRate := rate, premium := (x.crates.fromStr (col 6)).toOption
        intervalHours := 1, nextFundingTsUs := 0, exchange := "hyperliquid" }]
    | .error _ => []
  else []

/-- The open interest of a row, if it is declared and reads as one. -/
def ctxOpenInterest (pair : TradingPair) (tsUs : ℕ) (col : ℕ → String) : List DomainEvent :=
  if x.declared.contains .openInterest then
    match x.crates.fromStr (col 3) with
    | .ok oi => [.openInterest {
        openInterestTsUs := tsUs, localOiTsUs := 0, recvSeq := 0, connEpochUs := 0
        pair := pair, openInterest := oi, openInterestValue := none
        markPx := (x.crates.fromStr (col 8)).toOption, exchange := "hyperliquid" }]
    | .error _ => []
  else []

/-- The events of a row of asset contexts, with their receipt time: that of
the row. -/
def ctxRow (row : String) : List (DomainEvent × ℕ) :=
  let cols := Str.split ',' row
  let col := fun i => cols.getD i ""
  if cols.length ≠ 12 then []
  else if !x.window.coins.isEmpty && !x.window.coins.contains (col 1) then []
  else match x.parseFromRfc3339 (col 0) with
    | none => []
    | some micros =>
      -- the cast to an unsigned integer wraps
      let tsUs := (micros % 2 ^ 64).toNat
      match (SymbolCodec.bareCoin "USDC").decode x.unicode (col 1) with
      | none => []
      | some pair => (x.ctxFunding pair tsUs col ++ x.ctxOpenInterest pair tsUs col).map
          (fun ev => (ev, tsUs))

/-- The events of a file of asset contexts: those of its rows, unless its
columns are not the known ones. -/
def ctxRows : List String → List (DomainEvent × ℕ)
  | [] => []
  | header :: rows => if Str.trim header ≠ assetCtxsHeader then [] else rows.flatMap x.ctxRow

/-- The events of a book line, with their receipt time: that of the line, or
else the clock. A rejected line has none. -/
def bookLine (now : ℕ) (line : String) : List (DomainEvent × ℕ) :=
  match x.decodeLine line with
  | .ok decoded => decoded.events.map (fun ev => (ev, decoded.localTsUs.getD now))
  | .error _ => []

/-- The events of the lines of an object. -/
def lineEvents (now : ℕ → ℕ) (key : String) (lines : List String) : List (DomainEvent × ℕ) :=
  if Str.startsWith "asset_ctxs/" key then x.ctxRows lines
  else lines.zipIdx.flatMap (fun line => x.bookLine (now line.2) line.1)

/-- **What a spawn finds under a key.** An absent object, a corrupt one and
one that does not decode are passed over, as if they held no event; any other
error is a failure. -/
def objectEvents (a : Attempt) (key : String) : Except EntrepotError (List (DomainEvent × ℕ)) :=
  match a.fetch key with
  | .error e =>
    if e.objectAbsent then .ok []
    else if e.isIntegrity then .ok []
    else .error e
  | .ok bytes =>
    match x.guardedDecode bytes with
    | none => .ok []
    | some lines => .ok (x.lineEvents (a.now key) key lines)

/-! ### The loop -/

/-- Stamp events with their receipt times and the receive counter. -/
def stampAll : ℕ → List (DomainEvent × ℕ) → List DomainEvent
  | _, [] => []
  | recvSeq, (ev, localUs) :: rest =>
    ev.stampLocal localUs 0 (recvSeq + 1) archiveConnEpochUs :: stampAll (recvSeq + 1) rest

/-- The consumer hangs up before it has taken so many events. -/
def hangsUp (room : Option ℕ) (count : ℕ) : Bool :=
  match room with
  | none => false
  | some n => n < count

/-- The write of the cursor, if there is one and it succeeds. -/
def writeCursor (a : Attempt) (key : String) : List ReplayEffect :=
  if x.cursor && a.writes key then [.cursor key] else []

/-- **The loop of a spawn**, over the part of the plan ahead of it. -/
def replay (a : Attempt) : ℕ → Option ℕ → List String → List ReplayEffect × TaskExit
  | _, _, [] => ([], .exhausted)
  | recvSeq, room, key :: rest =>
    if a.stopped key then ([], .completed)
    else match x.objectEvents a key with
      | .error e => ([], .failed e.display)
      | .ok found =>
        let events := stampAll recvSeq found
        if hangsUp room events.length then
          ((events.take (room.getD 0)).map .sent, .completed)
        else
          let later := replay a (recvSeq + events.length) (room.map (· - events.length)) rest
          (events.map .sent ++ x.writeCursor a key ++ later.1, later.2)

/-- **One spawn**, from what the cursor file holds. -/
def spawn (a : Attempt) (cursor : Option String) : List ReplayEffect × TaskExit :=
  match x.enumerateWindow a.list with
  | .error e => ([], .failed e.display)
  | .ok keys => x.replay a 0 a.room (keys.drop (if x.cursor then resumeIndex cursor keys else 0))

/-- What the cursor file holds after a spawn. -/
def cursorAfter (cursor : Option String) (trace : List ReplayEffect) : Option String :=
  trace.foldl (fun c effect => match effect with
    | .sent _ => c
    | .cursor key => some key) cursor

/-- **A replay**: one spawn after another, each from the cursor file the one
before it left. -/
def respawn : Option String → List Attempt → List (List ReplayEffect × TaskExit)
  | _, [] => []
  | cursor, a :: rest =>
    x.spawn a cursor :: respawn (cursorAfter cursor (x.spawn a cursor).1) rest

end EntrepotAdapter
