import Aetelier.Driver
import Aetelier.ReconnectPolicy
import Mathlib.Data.List.Induction
import Mathlib.Data.List.Infix

/-!
# The transport of a connection

A connection reads one message after another off its socket. A text or binary
frame is inflated, offered to the venue's acknowledgement and control hooks, and
decoded if neither wants it; what it decodes to is sent to the driver. The loop
selects between the next message and a number of timers: a silence, the age of
the socket, the deadline of the acknowledgements; and it ends at the first of
these, at shutdown, at a close or an error of the socket, and when the driver is
gone.

A send waits while the driver's buffer is full, and the loop selects nothing until
it is done. At shutdown a venue that has farewell frames is sent these and a close;
what comes until its own close is read and thrown away.

`WssTransport.step` is one turn of that loop, with what it finds as its input.
A timer that is not due does nothing. The fates of the frames (`VenueProtocol.fate`)
account for all the loop does (`WssTransport.frames_accounted`): each frame has one, and
each fate one counter or one effect. The frames of the subscriptions are written
before the loop, and the keep-alives by tasks of their own: what is said of writes is said
of those the loop makes.
-/

/-! ## Why a connection ends -/

/-- The close frame of a server. -/
structure CloseFrame where
  code : ℕ
  reason : String
deriving DecidableEq, Repr

/-- An error of the socket library. -/
inductive SocketError where
  /-- A violation of the protocol. -/
  | protocol (message : String)
  /-- Any other. -/
  | other (message : String)
deriving DecidableEq, Repr

/-- The text of an error. -/
def SocketError.display : SocketError → String
  | .protocol message => "WebSocket protocol error: " ++ message
  | .other message => message

/-- **Why the loop of a connection ends.** -/
inductive WssExitReason where
  /-- The stream of messages ended, or the caller stopped the loop. -/
  | streamEnded
  /-- Nobody takes the events any more. -/
  | receiverDropped
  | serverClose (frame : Option CloseFrame)
  | transport (error : SocketError)
  | heartbeatWriteFailed (error : SocketError)
  | connectionFailed (message : String)
  /-- The venue turned the subscription down before any data. -/
  | subscriptionRejected (reason : String)
  /-- Nothing came for this long. -/
  | stale (silenceNs : ℕ)
  /-- The loop closed the socket itself, ahead of the age the venue allows. -/
  | plannedRotation (lifetimeNs : ℕ)
deriving DecidableEq, Repr

namespace DisconnectReason

/-- A text contains another. -/
def mentions (text needle : String) : Bool := decide (needle.toList <:+: text.toList)

/-- The text tells of a reset of the network. -/
def tellsReset (text : String) : Bool :=
  mentions text "reset without closing" || mentions text "Connection reset"

/-- The reason behind a close frame. -/
def classifyCloseFrame : Option CloseFrame → DisconnectReason
  | none => .transportError "server closed without a close frame"
  | some frame =>
    if frame.code = 1000 then .cleanClose
    else if frame.code = 1001 then .goingAway frame.reason
    else if frame.code = 1002 then
      if tellsReset frame.reason then
        .transportError ("server closed with code 1002: " ++ frame.reason)
      else .protocolRejection 1002 frame.reason
    else if frame.code = 1003 ∨ frame.code = 1008 then .protocolRejection frame.code frame.reason
    else
      .transportError ("server closed with code " ++ toString frame.code ++ ": " ++ frame.reason)

/-- The reason behind an error of the socket. -/
def classifySocketError : SocketError → DisconnectReason
  | .protocol message =>
    if tellsReset message then .transportError (SocketError.protocol message).display
    else .protocolRejection 1002 message
  | .other message => .transportError message

/-- The reason behind the end of a loop. -/
def ofExit : WssExitReason → DisconnectReason
  | .streamEnded => classifyCloseFrame none
  | .receiverDropped => .receiverDropped
  | .serverClose frame => classifyCloseFrame frame
  | .transport error => classifySocketError error
  | .heartbeatWriteFailed error => .heartbeatFailed error.display
  | .connectionFailed message => .transportError message
  | .subscriptionRejected reason => .protocolRejection 0 reason
  | .stale silenceNs => .staleConnection silenceNs
  | .plannedRotation _ => .cleanClose

end DisconnectReason

/-! ## The venue's side -/

/-- A message of a socket. -/
inductive WsMessage where
  | text (text : String)
  | binary (bytes : List UInt8)
  | ping (payload : List UInt8)
  | pong (payload : List UInt8)
  | close (frame : Option CloseFrame)
  /-- A frame the library did not assemble. -/
  | rawFrame
deriving DecidableEq, Repr

/-- What a text says of a subscription. -/
inductive AckOutcome where
  | accepted
  | rejected (code : Option ℤ) (reason : String)
  | notAck
deriving DecidableEq, Repr

/-- What is to be done about a control text. -/
inductive ControlAction where
  | ignore
  | reply (frame : WsMessage)
deriving DecidableEq, Repr

/-- How the frames of a venue are packed. -/
inductive FrameCodec where
  | plainText
  | gzip
deriving DecidableEq, Repr

/-- The longest text a frame may inflate to. -/
def maxInflatedFrameBytes : ℕ := 64 * 2 ^ 20

/-- **The protocol of a venue** on a socket, with the library that inflates its
frames and that gives at most so many bytes. -/
structure VenueProtocol (E : Type) where
  endpoint : String
  frameCodec : FrameCodec
  /-- The first bytes a packed text inflates to, as many as are asked for. -/
  inflateBytes : ℕ → List UInt8 → Option (List UInt8)
  subscribeFrames : List WsMessage
  unsubscribeFrames : List WsMessage
  classifyAck : String → AckOutcome
  onInboundControl : String → ControlAction
  decode : String → Except String (Option E)
  subscribeAckDeadline : Option ℕ
  connectionLifetime : Option ℕ
  staleAfter : ℕ

variable {E : Type}

namespace VenueProtocol

/-- A text from its bytes. -/
def fromUtf8 (bytes : List UInt8) : Option String := String.fromUTF8? ⟨bytes.toArray⟩

/-- Inflate a packed frame. -/
def gunzip (v : VenueProtocol E) (bytes : List UInt8) : Option String :=
  match v.inflateBytes (maxInflatedFrameBytes + 1) bytes with
  | none => none
  | some out => if maxInflatedFrameBytes < out.length then none else fromUtf8 out

/-- The text of a binary frame. -/
def inflate (v : VenueProtocol E) (bytes : List UInt8) : Option String :=
  match v.frameCodec with
  | .plainText => fromUtf8 bytes
  | .gzip => v.gunzip bytes

end VenueProtocol

/-- The bound on the opening of a socket. -/
def connectTimeoutNs : ℕ := 15000000000

/-- What a close may take. -/
def closeGraceNs : ℕ := 500000000

/-- How much earlier than the venue would close it a socket is rotated. -/
def rotationHeadroomNs : ℕ := (connectTimeoutNs + closeGraceNs) * 2

/-- When a socket opened at `start` is rotated. -/
def rotationDeadline (start : ℕ) (lifetime : Option ℕ) : Option ℕ :=
  lifetime.map (fun l => start + (l - rotationHeadroomNs))

/-- The exit of a subscription that is turned down. -/
def ackRejectionExit (streamed : Bool) (reason : String) : WssExitReason :=
  if streamed then .connectionFailed ("stream error after data: " ++ reason)
  else .subscriptionRejected reason

/-- The time a ping was sent, which its pong carries. -/
def decodePingSendUs (payload : List UInt8) : Option ℕ :=
  if payload.length = 8 then some (payload.foldr (fun b n => b.toNat + 256 * n) 0) else none

/-- The round trip with a new sample folded in. -/
def rttEwmaUs (prevUs sampleUs : ℕ) : ℕ :=
  if prevUs = 0 then sampleUs else (sampleUs + 4 * prevUs) / 5

/-! ## The loop -/

/-- What the loop finds while it handles a message. -/
structure ReadEnv where
  /-- The monotonic clock when the message was read. -/
  atNs : ℕ
  /-- The wall clock at the same moment. -/
  receiptUs : ℕ
  /-- The channel to the driver has no room. -/
  channelFull : Bool
  /-- How a write fails, if it does. -/
  writeError : Option SocketError

/-- **What the loop wakes up to.** -/
inductive SocketInput where
  | message (m : WsMessage) (env : ReadEnv)
  | readError (error : SocketError)
  | ended
  /-- The silence timer. -/
  | silence (nowNs : ℕ)
  /-- The rotation timer; the close is written or not. -/
  | age (nowNs : ℕ) (wrote : Bool)
  /-- The acknowledgement timer. -/
  | ackTimer (nowNs : ℕ)
  /-- Shutdown is signalled; so many of the farewell frames can be written, and the close
  or not. -/
  | shutdown (frames : ℕ) (wrote : Bool)
  /-- The heartbeat task could not write. -/
  | heartbeatDied
  /-- The close of the other side is waited for no longer. -/
  | graceOver
  /-- The driver's buffer takes the event that is sent. -/
  | accepted
  /-- The driver is gone. -/
  | refused

/-- What the loop does. -/
inductive SocketEffect (E : Type) where
  /-- An event goes to the driver, with the time its frame was received. -/
  | forward (ev : E) (receiptUs : ℕ)
  | write (m : WsMessage)

/-- **The state of the loop.** -/
structure WssTransport (E : Type) where
  /-- How many subscriptions are to be acknowledged. -/
  expectedAcks : ℕ
  acked : ℕ
  /-- A frame was decoded to an event. -/
  streamed : Bool
  ackDeadline : Option ℕ
  rotateAt : Option ℕ
  /-- When the last message was read. -/
  lastActivity : ℕ
  rttUs : ℕ
  msgs : ℕ
  decodeErr : ℕ
  droppedFrames : ℕ
  ingestBackpressure : ℕ
  ackTimeouts : ℕ
  /-- The event that is being sent to the driver, with the time its frame was
  received. -/
  sending : Option (E × ℕ)
  /-- The farewell is written, and the close of the other side is waited for. -/
  closing : Bool
  /-- The loop has ended. -/
  exit : Option WssExitReason

namespace WssTransport

variable (v : VenueProtocol E)

/-- The loop of a socket opened at this time, on which the subscriptions are
sent. -/
def start (nowNs : ℕ) : WssTransport E where
  expectedAcks := v.subscribeFrames.length
  acked := 0
  streamed := false
  ackDeadline := v.subscribeAckDeadline.map (nowNs + ·)
  rotateAt := rotationDeadline nowNs v.connectionLifetime
  lastActivity := nowNs
  rttUs := 0
  msgs := 0
  decodeErr := 0
  droppedFrames := 0
  ingestBackpressure := 0
  ackTimeouts := 0
  sending := none
  closing := false
  exit := none

/-- Leave the loop. -/
def leave (s : WssTransport E) (reason : WssExitReason) : WssTransport E :=
  { s with exit := some reason }

/-- Fold in the pong of a ping of our own. -/
def onPong (s : WssTransport E) (payload : List UInt8) (receiptUs : ℕ) : WssTransport E :=
  match decodePingSendUs payload with
  | none => s
  | some sendUs =>
    let rtt := receiptUs - sendUs
    if 0 < rtt then { s with rttUs := rttEwmaUs s.rttUs (max rtt 1) } else s

/-- A decoded event: it is counted, and its send begins. -/
def onEvent (s : WssTransport E) (env : ReadEnv) (ev : E) : WssTransport E :=
  { s with
    msgs := s.msgs + 1
    streamed := true
    ingestBackpressure := if env.channelFull then s.ingestBackpressure + 1
      else s.ingestBackpressure
    sending := some (ev, env.receiptUs) }

/-- An inflated text. -/
def onText (s : WssTransport E) (env : ReadEnv) (text : String) :
    WssTransport E × List (SocketEffect E) :=
  match v.classifyAck text with
  | .rejected _ reason => (s.leave (ackRejectionExit s.streamed reason), [])
  | .accepted => ({ s with acked := s.acked + 1 }, [])
  | .notAck =>
    match v.onInboundControl text with
    | .reply frame =>
      match env.writeError with
      | some e => (s.leave (.heartbeatWriteFailed e), [])
      | none => (s, [.write frame])
    | .ignore =>
      match v.decode text with
      | .ok (some ev) => (s.onEvent env ev, [])
      | .ok none => (s, [])
      | .error _ => ({ s with decodeErr := s.decodeErr + 1 }, [])

/-- A message off the socket. -/
def onMessage (s : WssTransport E) (env : ReadEnv) :
    WsMessage → WssTransport E × List (SocketEffect E)
  | .text text => s.onText v env text
  | .binary bytes =>
    match v.inflate bytes with
    | some text => s.onText v env text
    | none => ({ s with droppedFrames := s.droppedFrames + 1 }, [])
  | .ping payload => (s, if env.writeError = none then [.write (.pong payload)] else [])
  | .close frame => (s.leave (.serverClose frame), [])
  | .pong payload => (s.onPong payload env.receiptUs, [])
  | .rawFrame => (s, [])

/-- The text of a subscription that is not acknowledged in time. -/
def ackTimeoutText (acked expected : ℕ) : String :=
  "only " ++ toString acked ++ " of " ++ toString expected
    ++ " subscriptions acked before deadline"

/-- The text of a heartbeat that cannot be written. -/
def heartbeatDiedText : String := "heartbeat write failed — socket write half dead"

/-- What is written at shutdown: the farewell frames up to the first that fails, and
the close. -/
def farewell (frames : ℕ) (wrote : Bool) : List WsMessage :=
  v.unsubscribeFrames.take frames ++ if wrote then [.close none] else []

/-- A turn of the select. -/
def turn (s : WssTransport E) : SocketInput → WssTransport E × List (SocketEffect E)
  | .message m env => { s with lastActivity := env.atNs }.onMessage v env m
  | .readError e => (s.leave (.transport e), [])
  | .ended => (s.leave .streamEnded, [])
  | .silence nowNs =>
    if s.lastActivity + v.staleAfter ≤ nowNs then (s.leave (.stale v.staleAfter), []) else (s, [])
  | .age nowNs wrote =>
    if s.rotateAt.any (· ≤ nowNs) then
      (s.leave (.plannedRotation (v.connectionLifetime.getD 0)),
        if wrote then [.write (.close none)] else [])
    else (s, [])
  | .ackTimer nowNs =>
    if s.acked < s.expectedAcks ∧ s.ackDeadline.any (· ≤ nowNs) then
      ({ s with ackTimeouts := s.ackTimeouts + 1 }.leave
        (ackRejectionExit s.streamed (ackTimeoutText s.acked s.expectedAcks)), [])
    else (s, [])
  | .shutdown frames wrote =>
    if v.unsubscribeFrames.isEmpty then (s.leave .streamEnded, [])
    else ({ s with closing := true }, (farewell v frames wrote).map .write)
  | .heartbeatDied => (s.leave (.connectionFailed heartbeatDiedText), [])
  | _ => (s, [])

/-- While an event is sent. -/
def await (s : WssTransport E) (f : E × ℕ) : SocketInput → WssTransport E × List (SocketEffect E)
  | .accepted => ({ s with sending := none }, [.forward f.1 f.2])
  | .refused => (s.leave .receiverDropped, [])
  | _ => (s, [])

/-- While the close of the other side is waited for: all else that comes is thrown
away. -/
def grace (s : WssTransport E) : SocketInput → WssTransport E
  | .message (.close _) _ => s.leave .streamEnded
  | .readError _ => s.leave .streamEnded
  | .ended => s.leave .streamEnded
  | .graceOver => s.leave .streamEnded
  | _ => s

/-- **One turn of the loop**; after the loop has ended there is none. -/
def step (s : WssTransport E) (i : SocketInput) : WssTransport E × List (SocketEffect E) :=
  if s.exit = none then
    match s.sending with
    | some f => s.await f i
    | none => if s.closing then (s.grace i, []) else s.turn v i
  else (s, [])

/-- The loop as a machine. -/
def machine : Machine (WssTransport E) SocketInput (SocketEffect E) := ⟨step v⟩

/-! ## Opening a socket -/

/-- What the bootstrap of a venue asks for. -/
structure Prepared where
  endpointOverride : Option String := none
  extraFrames : List WsMessage := []
  extraFramesDelay : Option ℕ := none

/-- How the opening of a socket goes. -/
inductive ConnectOutcome where
  | connected
  | failed (error : SocketError)
  | timedOut

/-- What a task finds that opens a socket. -/
structure Dialling where
  prepared : Except String Prepared
  /-- What is wrong with a text that is no address. -/
  parseUrl : String → Option String
  connect : String → ConnectOutcome
  /-- How the write of the so-manieth frame fails, if it does. -/
  write : ℕ → Option SocketError
  /-- The monotonic clock when the frames are written. -/
  nowNs : ℕ

/-- What is sent before the loop: the subscriptions, and what the bootstrap asks
for at once. -/
def openingFrames (prepared : Prepared) : List WsMessage :=
  v.subscribeFrames ++ if prepared.extraFramesDelay.isSome then [] else prepared.extraFrames

/-- **Open a socket and subscribe.** The first frame that cannot be written ends it. -/
def dial (d : Dialling) : Except WssExitReason (WssTransport E) :=
  match d.prepared with
  | .error e => .error (.connectionFailed ("prepare: " ++ e))
  | .ok prepared =>
    let url := prepared.endpointOverride.getD v.endpoint
    match d.parseUrl url with
    | some e => .error (.connectionFailed ("url parse: " ++ e))
    | none =>
      match d.connect url with
      | .failed e => .error (.transport e)
      | .timedOut =>
        .error (.connectionFailed
          ("connect timed out after " ++ DisconnectReason.debugDuration connectTimeoutNs))
      | .connected =>
        match (List.range (openingFrames v prepared).length).findSome? d.write with
        | some e => .error (.transport e)
        | none => .ok (start v d.nowNs)

variable {v} in
/-- A loop begins at its start. -/
theorem eq_start_of_dial {d : Dialling} {s : WssTransport E} (h : dial v d = .ok s) :
    s = start v d.nowNs := by
  unfold dial at h
  split at h
  · cases h
  · dsimp only at h
    split at h
    · cases h
    · split at h
      · cases h
      · cases h
      · split at h
        · cases h
        · exact (Except.ok.inj h).symm

end WssTransport

/-! ## The fate of a frame -/

/-- **What becomes of a message.** -/
inductive FrameFate (E : Type) where
  /-- It cannot be inflated. -/
  | dropped
  | ack
  | rejection (reason : String)
  | reply (frame : WsMessage)
  | event (ev : E)
  /-- It holds nothing. -/
  | empty
  /-- It cannot be decoded. -/
  | malformed
  /-- It is a message of the socket protocol itself. -/
  | control

namespace VenueProtocol

variable (v : VenueProtocol E)

/-- What becomes of a text. -/
def fateOfText (text : String) : FrameFate E :=
  match v.classifyAck text with
  | .rejected _ reason => .rejection reason
  | .accepted => .ack
  | .notAck =>
    match v.onInboundControl text with
    | .reply frame => .reply frame
    | .ignore =>
      match v.decode text with
      | .ok (some ev) => .event ev
      | .ok none => .empty
      | .error _ => .malformed

/-- What becomes of a message. -/
def fate : WsMessage → FrameFate E
  | .text text => v.fateOfText text
  | .binary bytes => ((v.inflate bytes).map v.fateOfText).getD .dropped
  | _ => .control

end VenueProtocol

namespace FrameFate

/-- The event of a frame. -/
def event? : FrameFate E → Option E
  | .event ev => some ev
  | _ => none

def isAck : FrameFate E → Bool
  | .ack => true
  | _ => false

def isDropped : FrameFate E → Bool
  | .dropped => true
  | _ => false

def isMalformed : FrameFate E → Bool
  | .malformed => true
  | _ => false

end FrameFate

namespace WssTransport

variable (v : VenueProtocol E)

/-- What the loop does about a frame with this fate. -/
def settle (s : WssTransport E) (env : ReadEnv) :
    FrameFate E → WssTransport E × List (SocketEffect E)
  | .dropped => ({ s with droppedFrames := s.droppedFrames + 1 }, [])
  | .ack => ({ s with acked := s.acked + 1 }, [])
  | .rejection reason => (s.leave (ackRejectionExit s.streamed reason), [])
  | .reply frame =>
    match env.writeError with
    | some e => (s.leave (.heartbeatWriteFailed e), [])
    | none => (s, [.write frame])
  | .event ev => (s.onEvent env ev, [])
  | .empty => (s, [])
  | .malformed => ({ s with decodeErr := s.decodeErr + 1 }, [])
  | .control => (s, [])

theorem onText_eq_settle (s : WssTransport E) (env : ReadEnv) (text : String) :
    s.onText v env text = s.settle env (v.fateOfText text) := by
  unfold onText VenueProtocol.fateOfText
  cases v.classifyAck text with
  | accepted => rfl
  | rejected code reason => rfl
  | notAck =>
    dsimp only
    cases v.onInboundControl text with
    | reply frame => rfl
    | ignore =>
      dsimp only
      cases v.decode text with
      | error e => rfl
      | ok ev => cases ev <;> rfl

/-- A binary frame is settled by its fate. -/
theorem onMessage_binary (s : WssTransport E) (env : ReadEnv) (bytes : List UInt8) :
    s.onMessage v env (.binary bytes) = s.settle env (v.fate (.binary bytes)) := by
  unfold onMessage VenueProtocol.fate
  dsimp only
  cases v.inflate bytes with
  | none => rfl
  | some text => exact onText_eq_settle v s env text

/-! ## Accounts -/

end WssTransport

/-- The message that was read, if one was. -/
def SocketInput.read? : SocketInput → Option (WsMessage × ReadEnv)
  | .message m env => some (m, env)
  | _ => none

namespace SocketEffect

/-- The event that went to the driver. -/
def forwarded? : SocketEffect E → Option (E × ℕ)
  | .forward ev receiptUs => some (ev, receiptUs)
  | .write _ => none

/-- The message that was written. -/
def written? : SocketEffect E → Option WsMessage
  | .forward _ _ => none
  | .write m => some m

end SocketEffect

namespace VenueProtocol

variable (v : VenueProtocol E)

/-- What the driver is sent of a message. -/
def delivered (r : WsMessage × ReadEnv) : Option (E × ℕ) :=
  (v.fate r.1).event?.map (·, r.2.receiptUs)

/-- How a message is answered. -/
def answers (r : WsMessage × ReadEnv) : List WsMessage :=
  if r.2.writeError.isSome then []
  else
    match r.1 with
    | .ping payload => [.pong payload]
    | m =>
      match v.fate m with
      | .reply frame => [frame]
      | _ => []

/-- A message holds an event. -/
def holdsEvent (r : WsMessage × ReadEnv) : Bool := (v.fate r.1).event?.isSome

end VenueProtocol

namespace WssTransport

variable (v : VenueProtocol E)

/-- The loop is in its select. -/
def selects (s : WssTransport E) : Bool := s.exit.isNone && s.sending.isNone && !s.closing

/-- The message a turn of the select reads. -/
def taken (s : WssTransport E) (i : SocketInput) : Option (WsMessage × ReadEnv) :=
  if s.selects then i.read? else none

/-- The message that is thrown away while the close of the other side is waited for. -/
def discarded (s : WssTransport E) (i : SocketInput) : Option (WsMessage × ReadEnv) :=
  if s.exit.isNone && s.sending.isNone && s.closing then i.read? else none

/-- The message that is taken off the socket. -/
def consumed (s : WssTransport E) (i : SocketInput) : Option (WsMessage × ReadEnv) :=
  if s.exit.isNone && s.sending.isNone then i.read? else none

/-- The messages the select of a run reads. -/
def readBy (s : WssTransport E) (is : List SocketInput) : List (WsMessage × ReadEnv) :=
  (machine v).collect taken s is

/-- **The accounts of a loop that has read these messages.** -/
structure Accounts (s : WssTransport E) (read : List (WsMessage × ReadEnv)) : Prop where
  acked_eq : s.acked = read.countP (fun r => (v.fate r.1).isAck)
  dropped_eq : s.droppedFrames = read.countP (fun r => (v.fate r.1).isDropped)
  malformed_eq : s.decodeErr = read.countP (fun r => (v.fate r.1).isMalformed)
  msgs_eq : s.msgs = read.countP v.holdsEvent
  streamed_eq : s.streamed = read.any v.holdsEvent
  backpressure_eq :
    s.ingestBackpressure = read.countP (fun r => v.holdsEvent r && r.2.channelFull)

variable {v}

/-- One message more. -/
theorem Accounts.snoc {s s' : WssTransport E} {read : List (WsMessage × ReadEnv)}
    {r : WsMessage × ReadEnv} (h : Accounts v s read)
    (hacked : s'.acked = s.acked + (v.fate r.1).isAck.toNat)
    (hdropped : s'.droppedFrames = s.droppedFrames + (v.fate r.1).isDropped.toNat)
    (hmalformed : s'.decodeErr = s.decodeErr + (v.fate r.1).isMalformed.toNat)
    (hmsgs : s'.msgs = s.msgs + (v.holdsEvent r).toNat)
    (hstreamed : s'.streamed = (v.holdsEvent r || s.streamed))
    (hback : s'.ingestBackpressure
      = s.ingestBackpressure + (v.holdsEvent r && r.2.channelFull).toNat) :
    Accounts v s' (read ++ [r]) := by
  have hone : ∀ p : WsMessage × ReadEnv → Bool,
      (read ++ [r]).countP p = read.countP p + (p r).toNat := by
    intro p
    rw [List.countP_append, List.countP_singleton]
    cases p r <;> rfl
  refine ⟨?_, ?_, ?_, ?_, ?_, ?_⟩
  · rw [hone, hacked, h.acked_eq]
  · rw [hone, hdropped, h.dropped_eq]
  · rw [hone, hmalformed, h.malformed_eq]
  · rw [hone, hmsgs, h.msgs_eq]
  · rw [hstreamed, h.streamed_eq, List.any_append, Bool.or_comm]
    exact congrArg (read.any v.holdsEvent || ·) (Bool.or_false _).symm
  · rw [hone, hback, h.backpressure_eq]

/-- A message of the socket protocol is not in the accounts. -/
theorem Accounts.control {s s' : WssTransport E} {read : List (WsMessage × ReadEnv)}
    (h : Accounts v s read) (env : ReadEnv) {m : WsMessage} (hfate : v.fate m = .control)
    (hacked : s'.acked = s.acked) (hdropped : s'.droppedFrames = s.droppedFrames)
    (hmalformed : s'.decodeErr = s.decodeErr) (hmsgs : s'.msgs = s.msgs)
    (hstreamed : s'.streamed = s.streamed)
    (hback : s'.ingestBackpressure = s.ingestBackpressure) :
    Accounts v s' (read ++ [(m, env)]) := by
  have hholds : v.holdsEvent (m, env) = false := by
    unfold VenueProtocol.holdsEvent
    rw [hfate]
    rfl
  refine h.snoc ?_ ?_ ?_ ?_ ?_ ?_
  · rw [hfate, hacked]
    rfl
  · rw [hfate, hdropped]
    rfl
  · rw [hfate, hmalformed]
    rfl
  · rw [hholds, hmsgs]
    rfl
  · rw [hholds, hstreamed]
    rfl
  · rw [hholds, hback]
    rfl

/-- What settling a frame adds to the accounts. -/
theorem Accounts.settle {s : WssTransport E} {read : List (WsMessage × ReadEnv)}
    (h : Accounts v s read) (env : ReadEnv) (m : WsMessage) :
    Accounts v (s.settle env (v.fate m)).1 (read ++ [(m, env)]) := by
  have hholds : v.holdsEvent (m, env) = (v.fate m).event?.isSome := rfl
  cases hfate : v.fate m with
  | event ev =>
    rw [hfate] at hholds
    unfold WssTransport.settle onEvent
    refine h.snoc ?_ ?_ ?_ ?_ ?_ ?_ <;> simp only [hfate, hholds]
    iterate 5 rfl
    cases env.channelFull <;> rfl
  | reply frame =>
    rw [hfate] at hholds
    unfold WssTransport.settle
    dsimp only
    split <;>
    · refine h.snoc ?_ ?_ ?_ ?_ ?_ ?_ <;> simp only [hfate, hholds] <;> rfl
  | _ =>
    rw [hfate] at hholds
    refine h.snoc ?_ ?_ ?_ ?_ ?_ ?_ <;> simp only [hfate, hholds] <;> rfl

theorem accounts_onMessage {s : WssTransport E} {read : List (WsMessage × ReadEnv)}
    (h : Accounts v s read) (env : ReadEnv) (m : WsMessage) :
    Accounts v (s.onMessage v env m).1 (read ++ [(m, env)]) := by
  cases m with
  | text text =>
    have hsettle : s.onMessage v env (.text text) = s.settle env (v.fate (.text text)) :=
      onText_eq_settle v s env text
    rw [hsettle]
    exact h.settle env _
  | binary bytes =>
    rw [onMessage_binary]
    exact h.settle env _
  | pong payload =>
    have hpong : (s.onMessage v env (.pong payload)).1 = s.onPong payload env.receiptUs := rfl
    rw [hpong]
    unfold onPong
    split
    · exact h.control env rfl rfl rfl rfl rfl rfl rfl
    · dsimp only
      split <;> exact h.control env rfl rfl rfl rfl rfl rfl rfl
  | _ => exact h.control env rfl rfl rfl rfl rfl rfl rfl

/-- A message forwards nothing yet: its event, if it holds one, is being sent. -/
theorem sending_onMessage {s : WssTransport E} (h : s.sending = none) (env : ReadEnv)
    (m : WsMessage) :
    (s.onMessage v env m).2.filterMap SocketEffect.forwarded? = [] ∧
      (s.onMessage v env m).1.sending = v.delivered (m, env) := by
  have hcontrol : v.fate m = .control → s.sending = v.delivered (m, env) := by
    intro hfate
    unfold VenueProtocol.delivered
    rw [hfate]
    exact h
  have hsettle : (s.settle env (v.fate m)).2.filterMap SocketEffect.forwarded? = [] ∧
      (s.settle env (v.fate m)).1.sending = v.delivered (m, env) := by
    unfold VenueProtocol.delivered settle
    cases v.fate m with
    | event ev => exact ⟨rfl, rfl⟩
    | reply frame =>
      dsimp only
      split <;> exact ⟨rfl, h⟩
    | _ => exact ⟨rfl, h⟩
  cases m with
  | text text =>
    have heq : s.onMessage v env (.text text) = s.settle env (v.fate (.text text)) :=
      onText_eq_settle v s env text
    rw [heq]
    exact hsettle
  | binary bytes =>
    rw [onMessage_binary]
    exact hsettle
  | ping payload =>
    refine ⟨?_, hcontrol rfl⟩
    unfold onMessage
    dsimp only
    split <;> rfl
  | pong payload =>
    have hpong : (s.onPong payload env.receiptUs).sending = s.sending := by
      unfold onPong
      split
      · rfl
      · dsimp only
        split <;> rfl
    exact ⟨rfl, hpong.trans (hcontrol rfl)⟩
  | _ => exact ⟨rfl, hcontrol rfl⟩

/-- What is written about a message is its answer. -/
theorem written_onMessage (s : WssTransport E) (env : ReadEnv) (m : WsMessage) :
    (s.onMessage v env m).2.filterMap SocketEffect.written? = v.answers (m, env) := by
  have hsettle : (∀ payload, m ≠ .ping payload) →
      (s.settle env (v.fate m)).2.filterMap SocketEffect.written? = v.answers (m, env) := by
    intro hping
    have hanswers : v.answers (m, env) = if env.writeError.isSome then [] else
        match v.fate m with
        | .reply frame => [frame]
        | _ => [] := by
      unfold VenueProtocol.answers
      cases m with
      | ping payload => exact absurd rfl (hping payload)
      | _ => rfl
    rw [hanswers]
    unfold settle
    cases v.fate m with
    | reply frame =>
      dsimp only
      cases env.writeError <;> rfl
    | _ => exact (ite_self []).symm
  cases m with
  | text text =>
    have heq : s.onMessage v env (.text text) = s.settle env (v.fate (.text text)) :=
      onText_eq_settle v s env text
    rw [heq]
    exact hsettle (fun _ h => by cases h)
  | binary bytes =>
    rw [onMessage_binary]
    exact hsettle (fun _ h => by cases h)
  | ping payload =>
    unfold onMessage VenueProtocol.answers
    dsimp only
    cases env.writeError <;> rfl
  | _ => exact (ite_self []).symm

/-! ## Runs -/

theorem selects_iff {s : WssTransport E} :
    s.selects = true ↔ s.exit = none ∧ s.sending = none ∧ s.closing = false := by
  unfold selects
  rw [Bool.and_eq_true, Bool.and_eq_true, Option.isNone_iff_eq_none, Option.isNone_iff_eq_none,
    Bool.not_eq_true', and_assoc]

/-- A loop in its select makes a turn of it. -/
theorem step_of_selects {s : WssTransport E} (h : s.selects = true) (i : SocketInput) :
    s.step v i = s.turn v i := by
  obtain ⟨hexit, hsending, hclosing⟩ := selects_iff.mp h
  unfold step
  rw [if_pos hexit, hsending]
  dsimp only
  rw [hclosing, if_neg Bool.false_ne_true]

/-- What comes while the close is waited for is thrown away, or ends the loop. -/
theorem grace_cases (s : WssTransport E) (i : SocketInput) :
    s.grace i = s ∨ s.grace i = s.leave .streamEnded := by
  unfold grace
  split <;> first | exact .inl rfl | exact .inr rfl

/-- **What a loop does that is not in its select**: nothing, or its send is done, or the
driver is found gone, or the wait for the close is over. -/
theorem step_of_not_selects {s : WssTransport E} (h : s.selects = false) (i : SocketInput) :
    s.step v i = (s, []) ∨
      (∃ f, s.exit = none ∧ s.sending = some f ∧ i = .accepted ∧
        s.step v i = ({ s with sending := none }, [.forward f.1 f.2])) ∨
      (∃ f, s.exit = none ∧ s.sending = some f ∧ i = .refused ∧
        s.step v i = (s.leave .receiverDropped, [])) ∨
      (s.exit = none ∧ s.sending = none ∧ s.closing = true ∧
        s.step v i = (s.leave .streamEnded, [])) := by
  unfold step
  by_cases hexit : s.exit = none
  · rw [if_pos hexit]
    cases hsending : s.sending with
    | some f =>
      cases i with
      | accepted => exact .inr (.inl ⟨f, hexit, rfl, rfl, rfl⟩)
      | refused => exact .inr (.inr (.inl ⟨f, hexit, rfl, rfl, rfl⟩))
      | _ => exact .inl rfl
    | none =>
      have hclosing : s.closing = true := by
        by_contra hopen
        have hselects := selects_iff.mpr ⟨hexit, hsending, Bool.eq_false_iff.mpr hopen⟩
        exact Bool.noConfusion (h.symm.trans hselects)
      dsimp only
      rw [if_pos hclosing]
      rcases grace_cases s i with hgrace | hgrace
      · exact .inl (by rw [hgrace])
      · exact .inr (.inr (.inr ⟨hexit, rfl, hclosing, by rw [hgrace]⟩))
  · rw [if_neg hexit]
    exact .inl rfl

/-- Why a turn of the select that reads no message ends the loop. -/
def Due (v : VenueProtocol E) (s : WssTransport E) (e : WssExitReason) : SocketInput → Prop
  | .readError error => e = .transport error
  | .ended => e = .streamEnded
  | .silence nowNs => e = .stale v.staleAfter ∧ s.lastActivity + v.staleAfter ≤ nowNs
  | .age nowNs _ =>
    e = .plannedRotation (v.connectionLifetime.getD 0) ∧ s.rotateAt.any (· ≤ nowNs) = true
  | .ackTimer nowNs =>
    e = ackRejectionExit s.streamed (ackTimeoutText s.acked s.expectedAcks)
      ∧ s.acked < s.expectedAcks ∧ s.ackDeadline.any (· ≤ nowNs) = true
  | .shutdown _ _ => e = .streamEnded
  | .heartbeatDied => e = .connectionFailed heartbeatDiedText
  | _ => False

/-- A frame the loop parts with. -/
def IsParting (v : VenueProtocol E) (m : WsMessage) : Prop :=
  m ∈ v.unsubscribeFrames ∨ m = .close none

theorem isParting_of_mem_farewell {frames : ℕ} {wrote : Bool} {m : WsMessage}
    (h : m ∈ farewell v frames wrote) : IsParting v m := by
  rcases List.mem_append.mp h with hframe | hclose
  · exact .inl (List.mem_of_mem_take hframe)
  · cases wrote with
    | true => exact .inr (List.mem_singleton.mp hclose)
    | false => cases hclose

/-- **What a turn of the select does that reads no message**: nothing, or it ends the loop,
or it begins to close. -/
theorem turn_of_not_read (v : VenueProtocol E) (s : WssTransport E) {i : SocketInput}
    (h : i.read? = none) :
    s.turn v i = (s, []) ∨
      (∃ n e, ∃ ws : List WsMessage,
        s.turn v i = ({ s with ackTimeouts := n }.leave e, ws.map .write) ∧
        (∀ m ∈ ws, IsParting v m) ∧ Due v s e i) ∨
      (∃ frames wrote, i = .shutdown frames wrote ∧ v.unsubscribeFrames ≠ [] ∧
        s.turn v i = ({ s with closing := true }, (farewell v frames wrote).map .write)) := by
  have hends : ∀ {e : WssExitReason}, s.turn v i = (s.leave e, []) → Due v s e i →
      ∃ n e, ∃ ws : List WsMessage,
        s.turn v i = ({ s with ackTimeouts := n }.leave e, ws.map .write) ∧
        (∀ m ∈ ws, IsParting v m) ∧ Due v s e i :=
    fun hturn hdue => ⟨_, _, [], hturn, fun _ hm => absurd hm List.not_mem_nil, hdue⟩
  cases i with
  | message m env => cases h
  | readError error => exact .inr (.inl (hends rfl rfl))
  | ended => exact .inr (.inl (hends rfl rfl))
  | heartbeatDied => exact .inr (.inl (hends rfl rfl))
  | silence nowNs =>
    by_cases hdue : s.lastActivity + v.staleAfter ≤ nowNs
    · exact .inr (.inl (hends (if_pos hdue) ⟨rfl, hdue⟩))
    · exact .inl (if_neg hdue)
  | age nowNs wrote =>
    by_cases hdue : s.rotateAt.any (· ≤ nowNs) = true
    · refine .inr (.inl ⟨s.ackTimeouts, _, if wrote then [.close none] else [], ?_, fun m hm => ?_,
        rfl, hdue⟩)
      · unfold turn
        dsimp only
        rw [if_pos hdue]
        cases wrote <;> rfl
      · cases wrote with
        | true => exact .inr (List.mem_singleton.mp hm)
        | false => cases hm
    · exact .inl (if_neg hdue)
  | ackTimer nowNs =>
    by_cases hdue : s.acked < s.expectedAcks ∧ s.ackDeadline.any (· ≤ nowNs) = true
    · exact .inr (.inl ⟨_, _, [], if_pos hdue, fun _ hm => absurd hm List.not_mem_nil, rfl, hdue⟩)
    · exact .inl (if_neg hdue)
  | shutdown frames wrote =>
    by_cases hempty : v.unsubscribeFrames.isEmpty = true
    · exact .inr (.inl (hends (if_pos hempty) rfl))
    · exact .inr (.inr ⟨frames, wrote, rfl, fun hnil => hempty (List.isEmpty_iff.mpr hnil),
        if_neg hempty⟩)
  | _ => exact .inl rfl

/-- What no message has brought leaves the accounts. -/
theorem Accounts.congr {s s' : WssTransport E} {read : List (WsMessage × ReadEnv)}
    (h : Accounts v s read) (hacked : s'.acked = s.acked)
    (hdropped : s'.droppedFrames = s.droppedFrames) (hmalformed : s'.decodeErr = s.decodeErr)
    (hmsgs : s'.msgs = s.msgs) (hstreamed : s'.streamed = s.streamed)
    (hback : s'.ingestBackpressure = s.ingestBackpressure) : Accounts v s' read :=
  ⟨hacked.trans h.acked_eq, hdropped.trans h.dropped_eq, hmalformed.trans h.malformed_eq,
    hmsgs.trans h.msgs_eq, hstreamed.trans h.streamed_eq, hback.trans h.backpressure_eq⟩

/-- A loop that is not in its select reads no message of its own. -/
theorem taken_of_not_selects {s : WssTransport E} (h : s.selects = false) (i : SocketInput) :
    s.taken i = none := by
  unfold taken
  rw [h, if_neg Bool.false_ne_true]

theorem taken_of_selects {s : WssTransport E} (h : s.selects = true) (i : SocketInput) :
    s.taken i = i.read? := if_pos h

/-- **One turn of the loop** adds what it reads to the accounts. -/
theorem accounts_step {s : WssTransport E} {read : List (WsMessage × ReadEnv)}
    (h : Accounts v s read) (i : SocketInput) :
    Accounts v (s.step v i).1 (read ++ (s.taken i).toList) := by
  cases hselects : s.selects with
  | true =>
    rw [step_of_selects hselects, taken_of_selects hselects]
    cases hread : i.read? with
    | none =>
      rw [Option.toList_none, List.append_nil]
      rcases turn_of_not_read v s hread with hturn | ⟨n, e, ws, hturn, -, -⟩ | ⟨_, _, -, -, hturn⟩
      · rw [hturn]
        exact h
      · rw [hturn]
        exact h.congr rfl rfl rfl rfl rfl rfl
      · rw [hturn]
        exact h.congr rfl rfl rfl rfl rfl rfl
    | some r =>
      cases i with
      | message m env =>
        obtain rfl := Option.some.inj hread
        have hseen : Accounts v { s with lastActivity := env.atNs } read :=
          h.congr rfl rfl rfl rfl rfl rfl
        exact accounts_onMessage hseen env m
      | _ => cases hread
  | false =>
    rw [taken_of_not_selects hselects, Option.toList_none, List.append_nil]
    rcases step_of_not_selects (v := v) hselects i with
      hstep | ⟨f, -, -, -, hstep⟩ | ⟨f, -, -, -, hstep⟩ | ⟨-, -, -, hstep⟩
    · rw [hstep]
      exact h
    · rw [hstep]
      exact h.congr rfl rfl rfl rfl rfl rfl
    · rw [hstep]
      exact h.congr rfl rfl rfl rfl rfl rfl
    · rw [hstep]
      exact h.congr rfl rfl rfl rfl rfl rfl

theorem forwarded_map_write (ws : List WsMessage) :
    (ws.map (SocketEffect.write (E := E))).filterMap SocketEffect.forwarded? = [] := by
  rw [List.filterMap_map]
  exact List.filterMap_eq_nil_iff.mpr (fun _ _ => rfl)

theorem written_map_write (ws : List WsMessage) :
    (ws.map (SocketEffect.write (E := E))).filterMap SocketEffect.written? = ws := by
  rw [List.filterMap_map]
  exact List.filterMap_some

/-- What a loop forwards, and what it is sending then, is what it was sending and the
event of what it reads. -/
theorem forwarded_step (s : WssTransport E) (i : SocketInput) :
    (s.step v i).2.filterMap SocketEffect.forwarded? ++ (s.step v i).1.sending.toList
      = s.sending.toList ++ (s.taken i).toList.filterMap v.delivered := by
  cases hselects : s.selects with
  | true =>
    obtain ⟨-, hsending, -⟩ := selects_iff.mp hselects
    rw [step_of_selects hselects, taken_of_selects hselects, hsending]
    cases hread : i.read? with
    | none =>
      rcases turn_of_not_read v s hread with hturn | ⟨n, e, ws, hturn, -, -⟩ | ⟨_, _, -, -, hturn⟩
      · rw [hturn, hsending]
        rfl
      · rw [hturn, forwarded_map_write]
        exact congrArg Option.toList hsending
      · rw [hturn, forwarded_map_write]
        exact congrArg Option.toList hsending
    | some r =>
      cases i with
      | message m env =>
        obtain rfl := Option.some.inj hread
        obtain ⟨hquiet, hsends⟩ := sending_onMessage (v := v)
          (s := { s with lastActivity := env.atNs }) hsending env m
        show (onMessage v _ env m).2.filterMap _ ++ (onMessage v _ env m).1.sending.toList = _
        rw [hquiet, hsends, Option.toList_some, List.filterMap_cons, List.filterMap_nil]
        cases v.delivered (m, env) <;> rfl
      | _ => cases hread
  | false =>
    rw [taken_of_not_selects hselects]
    rcases step_of_not_selects (v := v) hselects i with
      hstep | ⟨f, -, hf, -, hstep⟩ | ⟨f, -, hf, -, hstep⟩ | ⟨-, -, -, hstep⟩
    · rw [hstep]
      exact (List.append_nil _).symm
    · rw [hstep, hf]
      rfl
    · rw [hstep]
      exact (List.append_nil _).symm
    · rw [hstep]
      exact (List.append_nil _).symm

/-- Only a send that is done forwards anything. -/
theorem forwarded_cases (s : WssTransport E) (i : SocketInput) :
    (s.step v i).2.filterMap SocketEffect.forwarded? = [] ∨
      ∃ f, i = .accepted ∧ (s.step v i).2.filterMap SocketEffect.forwarded? = [f] := by
  cases hselects : s.selects with
  | true =>
    obtain ⟨-, hsending, -⟩ := selects_iff.mp hselects
    rw [step_of_selects hselects]
    refine .inl ?_
    cases hread : i.read? with
    | none =>
      rcases turn_of_not_read v s hread with hturn | ⟨n, e, ws, hturn, -, -⟩ | ⟨_, _, -, -, hturn⟩
      · rw [hturn]
        rfl
      · rw [hturn, forwarded_map_write]
      · rw [hturn, forwarded_map_write]
    | some r =>
      cases i with
      | message m env =>
        exact (sending_onMessage (s := { s with lastActivity := env.atNs }) hsending env m).1
      | _ => cases hread
  | false =>
    rcases step_of_not_selects (v := v) hselects i with
      hstep | ⟨f, -, -, haccepted, hstep⟩ | ⟨f, -, -, -, hstep⟩ | ⟨-, -, -, hstep⟩
    · exact .inl (by rw [hstep]; rfl)
    · exact .inr ⟨f, haccepted, by rw [hstep]; rfl⟩
    · exact .inl (by rw [hstep]; rfl)
    · exact .inl (by rw [hstep]; rfl)

theorem accounts_start (nowNs : ℕ) : Accounts v (start v nowNs) [] :=
  ⟨rfl, rfl, rfl, rfl, rfl, rfl⟩

/-- A run adds what it reads to the accounts. -/
theorem accounts_run {s : WssTransport E} {read : List (WsMessage × ReadEnv)}
    (h : Accounts v s read) (is : List SocketInput) :
    Accounts v ((machine v).run s is).1 (read ++ readBy v s is) := by
  induction is generalizing s read with
  | nil =>
    rw [show readBy v s [] = [] from rfl, List.append_nil]
    exact h
  | cons i is ih =>
    have hread : readBy v s (i :: is) = (s.taken i).toList ++ readBy v (s.step v i).1 is := rfl
    rw [hread, ← List.append_assoc]
    exact ih (accounts_step h i)

/-- **The events of what is read are forwarded in order**, but for the one that is still
being sent. -/
theorem forwarded_run (s : WssTransport E) (is : List SocketInput) :
    ((machine v).run s is).2.filterMap SocketEffect.forwarded?
        ++ ((machine v).run s is).1.sending.toList
      = s.sending.toList ++ (readBy v s is).filterMap v.delivered := by
  induction is generalizing s with
  | nil => exact (List.append_nil _).symm
  | cons i is ih =>
    have hread : readBy v s (i :: is) = (s.taken i).toList ++ readBy v (s.step v i).1 is := rfl
    have hstep := forwarded_step (v := v) s i
    show List.filterMap _ ((s.step v i).2 ++ ((machine v).run (s.step v i).1 is).2)
      ++ ((machine v).run (s.step v i).1 is).1.sending.toList = _
    rw [List.filterMap_append, List.append_assoc, ih, hread, List.filterMap_append,
      ← List.append_assoc, hstep, List.append_assoc]

/-- The loop has parted: it has ended, or waits for the close of the other side. -/
def parted (s : WssTransport E) : Bool := s.exit.isSome || s.closing

theorem not_selects_of_parted {s : WssTransport E} (h : s.parted = true) : s.selects = false := by
  rw [Bool.eq_false_iff]
  intro hselects
  obtain ⟨hexit, -, hclosing⟩ := selects_iff.mp hselects
  unfold parted at h
  rw [hexit, hclosing] at h
  cases h

/-- A loop that has parted writes nothing any more. -/
theorem parted_step {s : WssTransport E} (h : s.parted = true) (i : SocketInput) :
    (s.step v i).1.parted = true ∧ (s.step v i).2.filterMap SocketEffect.written? = [] := by
  have hexit : ∀ s' : WssTransport E, s'.exit = s.exit → s'.closing = s.closing →
      s'.parted = true := by
    intro s' h1 h2
    unfold parted at h ⊢
    rw [h1, h2]
    exact h
  rcases step_of_not_selects (v := v) (not_selects_of_parted h) i with
    hstep | ⟨f, -, -, -, hstep⟩ | ⟨f, -, -, -, hstep⟩ | ⟨-, -, -, hstep⟩
  · rw [hstep]
    exact ⟨h, rfl⟩
  · rw [hstep]
    exact ⟨hexit _ rfl rfl, rfl⟩
  · rw [hstep]
    exact ⟨rfl, rfl⟩
  · rw [hstep]
    exact ⟨rfl, rfl⟩

/-- It reads nothing of its own either: what it takes off the socket, it throws away. -/
theorem parted_run {s : WssTransport E} (h : s.parted = true) (is : List SocketInput) :
    readBy v s is = [] ∧ ((machine v).run s is).2.filterMap SocketEffect.written? = [] ∧
      (machine v).collect consumed s is = (machine v).collect discarded s is := by
  induction is generalizing s with
  | nil => exact ⟨rfl, rfl, rfl⟩
  | cons i is ih =>
    obtain ⟨hnext, hquiet⟩ := parted_step (v := v) h i
    obtain ⟨hread, hwritten, hconsumed⟩ := ih hnext
    refine ⟨?_, ?_, ?_⟩
    · show (s.taken i).toList ++ readBy v (s.step v i).1 is = []
      rw [taken_of_not_selects (not_selects_of_parted h), hread]
      rfl
    · show List.filterMap _ ((s.step v i).2 ++ ((machine v).run (s.step v i).1 is).2) = []
      rw [List.filterMap_append, hquiet, hwritten]
      rfl
    · show (s.consumed i).toList ++ (machine v).collect consumed (s.step v i).1 is
        = (s.discarded i).toList ++ (machine v).collect discarded (s.step v i).1 is
      rw [hconsumed]
      refine congrArg (Option.toList · ++ _) ?_
      unfold consumed discarded
      unfold parted at h
      cases hexit : s.exit with
      | some e => rfl
      | none =>
        rw [hexit] at h
        rw [show s.closing = true from h, Bool.and_true]

/-- Before it parts, what it takes off the socket is what it reads. -/
theorem consumed_of_not_parted {s : WssTransport E} (h : s.parted = false) (i : SocketInput) :
    s.consumed i = s.taken i ∧ s.discarded i = none := by
  unfold parted at h
  rw [Bool.or_eq_false_iff, Option.isSome_eq_false_iff, Option.isNone_iff_eq_none] at h
  unfold consumed discarded taken selects
  rw [h.1, h.2]
  cases s.sending with
  | none => exact ⟨rfl, rfl⟩
  | some f => exact ⟨rfl, rfl⟩

/-- A step writes the answers to what it reads, or parts. -/
theorem written_step (s : WssTransport E) (i : SocketInput) :
    (s.step v i).2.filterMap SocketEffect.written? = (s.taken i).toList.flatMap v.answers ∨
      s.taken i = none ∧ (s.step v i).1.parted = true ∧
        ∀ m ∈ (s.step v i).2.filterMap SocketEffect.written?, IsParting v m := by
  cases hselects : s.selects with
  | false =>
    rw [taken_of_not_selects hselects]
    refine .inl ?_
    rcases step_of_not_selects (v := v) hselects i with
      hstep | ⟨f, -, -, -, hstep⟩ | ⟨f, -, -, -, hstep⟩ | ⟨-, -, -, hstep⟩ <;>
      rw [hstep] <;> rfl
  | true =>
    rw [taken_of_selects hselects]
    have hstep := step_of_selects (v := v) hselects i
    cases hi : i.read? with
    | some r =>
      cases i with
      | message m env =>
        obtain rfl := Option.some.inj hi
        refine .inl ?_
        rw [hstep, Option.toList_some, List.flatMap_singleton]
        exact written_onMessage _ env m
      | _ => cases hi
    | none =>
      rcases turn_of_not_read v s hi with
        hturn | ⟨n, e, ws, hturn, hws, -⟩ | ⟨frames, wrote, -, -, hturn⟩
      · rw [hstep, hturn]
        exact .inl rfl
      · rw [hstep, hturn, written_map_write]
        exact .inr ⟨rfl, rfl, hws⟩
      · rw [hstep, hturn, written_map_write]
        exact .inr ⟨rfl, Bool.or_true _, fun m hm => isParting_of_mem_farewell hm⟩

/-- **What a run writes** are the answers to what it reads, in order, and then the frames
it parts with; and what it takes off the socket is what it reads, and then what it
throws away. -/
theorem written_run (s : WssTransport E) (is : List SocketInput) :
    (∃ parting, ((machine v).run s is).2.filterMap SocketEffect.written?
        = (readBy v s is).flatMap v.answers ++ parting ∧ ∀ m ∈ parting, IsParting v m) ∧
      (machine v).collect consumed s is
        = readBy v s is ++ (machine v).collect discarded s is := by
  induction is generalizing s with
  | nil => exact ⟨⟨[], rfl, fun _ hm => absurd hm List.not_mem_nil⟩, rfl⟩
  | cons i is ih =>
    cases hparted : s.parted with
    | true =>
      -- nothing is read any more, and what comes is thrown away
      obtain ⟨hnone, hsilent, hsame⟩ := parted_run (v := v) hparted (i :: is)
      rw [hnone, hsilent, hsame]
      exact ⟨⟨[], rfl, fun _ hm => absurd hm List.not_mem_nil⟩, rfl⟩
    | false =>
      obtain ⟨⟨parting, hwritten, hparting⟩, hconsumed⟩ := ih (s.step v i).1
      obtain ⟨htaken, hkept⟩ := consumed_of_not_parted hparted i
      have hout : ((machine v).run s (i :: is)).2
          = (s.step v i).2 ++ ((machine v).run (s.step v i).1 is).2 := rfl
      have hread : readBy v s (i :: is)
          = (s.taken i).toList ++ readBy v (s.step v i).1 is := rfl
      have hcons : (machine v).collect consumed s (i :: is)
          = (s.consumed i).toList ++ (machine v).collect consumed (s.step v i).1 is := rfl
      have hdisc : (machine v).collect discarded s (i :: is)
          = (s.discarded i).toList ++ (machine v).collect discarded (s.step v i).1 is := rfl
      rw [hout, hread, hcons, hdisc, htaken, hkept, hconsumed, List.filterMap_append,
        List.flatMap_append]
      refine ⟨?_, by rw [List.append_assoc]; rfl⟩
      rcases written_step (v := v) s i with hanswers | ⟨hnone, hpast, hws⟩
      · rw [hanswers, hwritten, ← List.append_assoc]
        exact ⟨parting, rfl, hparting⟩
      · obtain ⟨hrest, hsilent, -⟩ := parted_run (v := v) hpast is
        rw [hnone, hrest, hsilent]
        exact ⟨_, List.append_nil _, hws⟩

/-! ## The round trip -/

/-- The round trip a message measures: that of a pong which carries the time of
its ping. -/
def rttSample (r : WsMessage × ReadEnv) : Option ℕ :=
  match r.1 with
  | .pong payload => (decodePingSendUs payload).bind
      (fun sendUs => if 0 < r.2.receiptUs - sendUs then some (r.2.receiptUs - sendUs) else none)
  | _ => none

/-- The round trip after a sample. -/
theorem rttUs_onMessage (s : WssTransport E) (env : ReadEnv) (m : WsMessage) :
    (s.onMessage v env m).1.rttUs
      = ((rttSample (m, env)).map (rttEwmaUs s.rttUs)).getD s.rttUs := by
  have hsettle : ∀ fate : FrameFate E, (s.settle env fate).1.rttUs = s.rttUs := by
    intro fate
    unfold settle
    cases fate with
    | reply frame =>
      dsimp only
      split <;> rfl
    | _ => rfl
  cases m with
  | text text =>
    have heq : s.onMessage v env (.text text) = s.settle env (v.fate (.text text)) :=
      onText_eq_settle v s env text
    rw [heq]
    exact hsettle _
  | binary bytes =>
    rw [onMessage_binary]
    exact hsettle _
  | pong payload =>
    show (s.onPong payload env.receiptUs).rttUs = _
    unfold onPong rttSample
    dsimp only
    cases decodePingSendUs payload with
    | none => rfl
    | some sendUs =>
      dsimp only [Option.bind_some]
      split
      · next hpos =>
        show rttEwmaUs s.rttUs (max _ 1) = rttEwmaUs s.rttUs _
        rw [Nat.max_eq_left hpos]
      · rfl
  | _ => rfl

/-- **The round trip is the mean over the samples**, each new one weighing a
fifth. -/
theorem rttUs_run (s : WssTransport E) (is : List SocketInput) :
    ((machine v).run s is).1.rttUs
      = ((readBy v s is).filterMap rttSample).foldl rttEwmaUs s.rttUs := by
  induction is generalizing s with
  | nil => rfl
  | cons i is ih =>
    have hread : readBy v s (i :: is) = (s.taken i).toList ++ readBy v (s.step v i).1 is := rfl
    have hstep : (s.step v i).1.rttUs
        = ((s.taken i).toList.filterMap rttSample).foldl rttEwmaUs s.rttUs := by
      cases hselects : s.selects with
      | true =>
        rw [step_of_selects hselects, taken_of_selects hselects]
        cases hi : i.read? with
        | none =>
          rcases turn_of_not_read v s hi with hturn | ⟨n, e, ws, hturn, -⟩ | ⟨_, _, -, -, hturn⟩ <;>
            rw [hturn] <;> rfl
        | some r =>
          cases i with
          | message m env =>
            obtain rfl := Option.some.inj hi
            have hone := rttUs_onMessage (v := v) { s with lastActivity := env.atNs } env m
            show (onMessage v { s with lastActivity := env.atNs } env m).1.rttUs = _
            rw [hone, Option.toList_some, List.filterMap_cons, List.filterMap_nil]
            cases rttSample (m, env) <;> rfl
          | _ => cases hi
      | false =>
        rw [taken_of_not_selects hselects]
        rcases step_of_not_selects (v := v) hselects i with
          hstep | ⟨f, -, -, -, hstep⟩ | ⟨f, -, -, -, hstep⟩ | ⟨-, -, -, hstep⟩ <;>
          rw [hstep] <;> rfl
    rw [hread, List.filterMap_append, List.foldl_append, ← hstep]
    exact ih _

/-- **The frames of a run are accounted for.** Each message it takes off the socket is read
by its select, or thrown away after its farewell. Each message that is read has one fate:
the counters count the fates, the round trip is folded over the pongs, the events go to the
driver in order, each counted once, but for one whose send is not done; and what the loop
writes are the answers, and then the frames it parts with. -/
theorem frames_accounted (nowNs : ℕ) (is : List SocketInput) :
    Accounts v ((machine v).run (start v nowNs) is).1 (readBy v (start v nowNs) is)
      ∧ ((machine v).run (start v nowNs) is).2.filterMap SocketEffect.forwarded?
          ++ ((machine v).run (start v nowNs) is).1.sending.toList
        = (readBy v (start v nowNs) is).filterMap v.delivered
      ∧ ((machine v).run (start v nowNs) is).1.msgs
        = (((machine v).run (start v nowNs) is).2.filterMap SocketEffect.forwarded?).length
          + ((machine v).run (start v nowNs) is).1.sending.toList.length
      ∧ ((machine v).run (start v nowNs) is).1.rttUs
        = ((readBy v (start v nowNs) is).filterMap rttSample).foldl rttEwmaUs 0
      ∧ (∃ parting, ((machine v).run (start v nowNs) is).2.filterMap SocketEffect.written?
          = (readBy v (start v nowNs) is).flatMap v.answers ++ parting
        ∧ ∀ m ∈ parting, IsParting v m)
      ∧ (machine v).collect consumed (start v nowNs) is
        = readBy v (start v nowNs) is ++ (machine v).collect discarded (start v nowNs) is := by
  have haccounts := accounts_run (accounts_start (v := v) nowNs) is
  have hforward := forwarded_run (v := v) (start v nowNs) is
  obtain ⟨hwritten, hconsumed⟩ := written_run (v := v) (start v nowNs) is
  refine ⟨haccounts, hforward, ?_, rttUs_run _ is, hwritten, hconsumed⟩
  -- an event is counted as its send begins
  have hcount : (readBy v (start v nowNs) is).countP v.holdsEvent
      = ((readBy v (start v nowNs) is).filterMap v.delivered).length := by
    rw [List.length_filterMap_eq_countP]
    refine List.countP_congr (fun r _ => ?_)
    unfold VenueProtocol.holdsEvent VenueProtocol.delivered
    rw [Option.isSome_map]
  rw [haccounts.msgs_eq, List.nil_append, hcount, ← List.length_append]
  exact congrArg List.length hforward.symm

/-! ## Grounds of an exit -/

/-- **What a loop keeps watch of**: its fixed terms, the clock of its silence timer, and
where what it is at has come from. -/
structure Watch (v : VenueProtocol E) (openedNs : ℕ) (is : List SocketInput)
    (s : WssTransport E) (read : List (WsMessage × ReadEnv)) : Prop where
  expectedAcks_eq : s.expectedAcks = v.subscribeFrames.length
  ackDeadline_eq : s.ackDeadline = v.subscribeAckDeadline.map (openedNs + ·)
  rotateAt_eq : s.rotateAt = rotationDeadline openedNs v.connectionLifetime
  lastActivity_eq : s.lastActivity = (read.getLast?.map (fun r => r.2.atNs)).getD openedNs
  /-- The event that is being sent is that of the last message. -/
  sending_eq : ∀ f, s.sending = some f → read.getLast?.bind v.delivered = some f
  closing_of : s.closing = true → ∃ frames wrote, .shutdown frames wrote ∈ is
  /-- A loop that ends of itself is sending nothing. -/
  idle_of_exit : ∀ e, s.exit = some e → e ≠ .receiverDropped → s.sending = none

/-- Fewer subscriptions were acknowledged than were sent, when the time for it was up; the
text says so. -/
def FewAcks (v : VenueProtocol E) (openedNs : ℕ) (is : List SocketInput)
    (read : List (WsMessage × ReadEnv)) (reason : String) : Prop :=
  reason = ackTimeoutText (read.countP (fun r => (v.fate r.1).isAck)) v.subscribeFrames.length
    ∧ read.countP (fun r => (v.fate r.1).isAck) < v.subscribeFrames.length
    ∧ ∃ nowNs deadline, .ackTimer nowNs ∈ is ∧ v.subscribeAckDeadline = some deadline
      ∧ openedNs + deadline ≤ nowNs

/-- A subscription was turned down, for this reason or by silence. -/
def TurnedDown (v : VenueProtocol E) (openedNs : ℕ) (is : List SocketInput)
    (read : List (WsMessage × ReadEnv)) (reason : String) : Prop :=
  (∃ r ∈ read, v.fate r.1 = .rejection reason) ∨ FewAcks v openedNs is read reason

/-- **What must have happened for a loop to end so.** -/
def Grounds (v : VenueProtocol E) (openedNs : ℕ) (is : List SocketInput)
    (read : List (WsMessage × ReadEnv)) : WssExitReason → Prop
  | .streamEnded => .ended ∈ is ∨ ∃ frames wrote, .shutdown frames wrote ∈ is
  | .receiverDropped => (∃ r, read.getLast? = some r ∧ v.holdsEvent r = true) ∧ .refused ∈ is
  | .serverClose frame => ∃ r ∈ read, r.1 = .close frame
  | .transport error => .readError error ∈ is
  | .heartbeatWriteFailed error =>
    ∃ r ∈ read, r.2.writeError = some error ∧ ∃ frame, v.fate r.1 = .reply frame
  | .connectionFailed message =>
    (message = heartbeatDiedText ∧ .heartbeatDied ∈ is)
      ∨ ∃ reason, message = "stream error after data: " ++ reason
        ∧ (∃ r ∈ read, v.holdsEvent r = true) ∧ TurnedDown v openedNs is read reason
  | .subscriptionRejected reason =>
    (∀ r ∈ read, v.holdsEvent r = false) ∧ TurnedDown v openedNs is read reason
  | .stale silenceNs => silenceNs = v.staleAfter ∧ ∃ nowNs, .silence nowNs ∈ is
      ∧ (read.getLast?.map (fun r => r.2.atNs)).getD openedNs + silenceNs ≤ nowNs
  | .plannedRotation lifetimeNs => v.connectionLifetime = some lifetimeNs ∧ ∃ nowNs wrote,
      .age nowNs wrote ∈ is ∧ openedNs + (lifetimeNs - rotationHeadroomNs) ≤ nowNs

variable {openedNs : ℕ}

theorem watch_start (openedNs : ℕ) : Watch v openedNs [] (start v openedNs) [] :=
  ⟨rfl, rfl, rfl, rfl, fun _ hf => (by cases hf), fun hc => (by cases hc), fun _ _ _ => rfl⟩

/-- What has been found stays found. -/
theorem Watch.mono {is : List SocketInput} {s : WssTransport E}
    {read : List (WsMessage × ReadEnv)} (h : Watch v openedNs is s read) (i : SocketInput) :
    Watch v openedNs (is ++ [i]) s read := by
  refine ⟨h.expectedAcks_eq, h.ackDeadline_eq, h.rotateAt_eq, h.lastActivity_eq, h.sending_eq,
    fun hclosing => ?_, h.idle_of_exit⟩
  obtain ⟨frames, wrote, hmem⟩ := h.closing_of hclosing
  exact ⟨frames, wrote, List.mem_append_left _ hmem⟩

/-- A message changes none of the fixed terms, and ends a loop only when it holds no
event. -/
theorem onMessage_fixed {s : WssTransport E} (h : s.exit = none) (env : ReadEnv)
    (m : WsMessage) :
    (s.onMessage v env m).1.expectedAcks = s.expectedAcks
      ∧ (s.onMessage v env m).1.ackDeadline = s.ackDeadline
      ∧ (s.onMessage v env m).1.rotateAt = s.rotateAt
      ∧ (s.onMessage v env m).1.lastActivity = s.lastActivity
      ∧ (s.onMessage v env m).1.closing = s.closing
      ∧ ((s.onMessage v env m).1.exit ≠ none → v.delivered (m, env) = none) := by
  have hquiet : ∀ m' : WsMessage, (∀ ev, v.fate m' ≠ .event ev) → v.delivered (m', env) = none := by
    intro m' hfate
    unfold VenueProtocol.delivered
    cases hf : v.fate m' with
    | event ev => exact absurd hf (hfate ev)
    | _ => rfl
  have hsettle : (s.settle env (v.fate m)).1.expectedAcks = s.expectedAcks
      ∧ (s.settle env (v.fate m)).1.ackDeadline = s.ackDeadline
      ∧ (s.settle env (v.fate m)).1.rotateAt = s.rotateAt
      ∧ (s.settle env (v.fate m)).1.lastActivity = s.lastActivity
      ∧ (s.settle env (v.fate m)).1.closing = s.closing
      ∧ ((s.settle env (v.fate m)).1.exit ≠ none → v.delivered (m, env) = none) := by
    unfold settle
    cases hfate : v.fate m with
    | event ev => exact ⟨rfl, rfl, rfl, rfl, rfl, fun hexit => absurd h hexit⟩
    | reply frame =>
      have hnone := hquiet m (fun ev hev => by rw [hfate] at hev; cases hev)
      dsimp only
      split <;> exact ⟨rfl, rfl, rfl, rfl, rfl, fun _ => hnone⟩
    | _ =>
      exact ⟨rfl, rfl, rfl, rfl, rfl,
        fun _ => hquiet m (fun ev hev => by rw [hfate] at hev; cases hev)⟩
  cases m with
  | text text =>
    have heq : s.onMessage v env (.text text) = s.settle env (v.fate (.text text)) :=
      onText_eq_settle v s env text
    rw [heq]
    exact hsettle
  | binary bytes =>
    rw [onMessage_binary]
    exact hsettle
  | pong payload =>
    unfold onMessage onPong
    dsimp only
    split
    · exact ⟨rfl, rfl, rfl, rfl, rfl, fun _ => rfl⟩
    · split <;> exact ⟨rfl, rfl, rfl, rfl, rfl, fun _ => rfl⟩
  | _ => exact ⟨rfl, rfl, rfl, rfl, rfl, fun _ => rfl⟩

/-- **One turn of the loop** keeps its watch. -/
theorem Watch.step {is : List SocketInput} {s : WssTransport E}
    {read : List (WsMessage × ReadEnv)} (h : Watch v openedNs is s read) (i : SocketInput) :
    Watch v openedNs (is ++ [i]) (s.step v i).1 (read ++ (s.taken i).toList) := by
  have hmono := h.mono i
  cases hselects : s.selects with
  | true =>
    obtain ⟨hexit, hsending, hclosing⟩ := selects_iff.mp hselects
    rw [step_of_selects hselects, taken_of_selects hselects]
    cases hi : i.read? with
    | none =>
      rw [Option.toList_none, List.append_nil]
      rcases turn_of_not_read v s hi with
        hturn | ⟨n, e, ws, hturn, -⟩ | ⟨frames, wrote, rfl, -, hturn⟩
      · rw [hturn]
        exact hmono
      · rw [hturn]
        exact ⟨h.expectedAcks_eq, h.ackDeadline_eq, h.rotateAt_eq, h.lastActivity_eq, h.sending_eq,
          hmono.closing_of, fun _ _ _ => hsending⟩
      · rw [hturn]
        exact ⟨h.expectedAcks_eq, h.ackDeadline_eq, h.rotateAt_eq, h.lastActivity_eq, h.sending_eq,
          fun _ => ⟨frames, wrote, List.mem_append_right _ (List.mem_singleton.mpr rfl)⟩,
          h.idle_of_exit⟩
    | some r =>
      cases i with
      | message m env =>
        obtain rfl := Option.some.inj hi
        obtain ⟨hacks, hdeadline, hrotate, hlast, hopen, hend⟩ := onMessage_fixed (v := v)
          (s := { s with lastActivity := env.atNs }) hexit env m
        have hsends := (sending_onMessage (v := v)
          (s := { s with lastActivity := env.atNs }) hsending env m).2
        refine ⟨hacks.trans h.expectedAcks_eq, hdeadline.trans h.ackDeadline_eq,
          hrotate.trans h.rotateAt_eq, hlast.trans ?_, fun f hf => ?_,
          fun hclose => hmono.closing_of (hopen.symm.trans hclose), fun e he _ => ?_⟩
        · rw [Option.toList_some, List.getLast?_concat]
          rfl
        · rw [Option.toList_some, List.getLast?_concat]
          exact hsends.symm.trans hf
        · refine hsends.trans (hend (fun hnone => ?_))
          exact Option.some_ne_none e (he.symm.trans hnone)
      | _ => cases hi
  | false =>
    rw [taken_of_not_selects hselects, Option.toList_none, List.append_nil]
    rcases step_of_not_selects (v := v) hselects i with
      hstep | ⟨f, -, -, -, hstep⟩ | ⟨f, -, -, -, hstep⟩ | ⟨-, hsending, -, hstep⟩
    · rw [hstep]
      exact hmono
    · rw [hstep]
      exact ⟨h.expectedAcks_eq, h.ackDeadline_eq, h.rotateAt_eq, h.lastActivity_eq,
        fun _ hf => (by cases hf), hmono.closing_of, fun _ _ _ => rfl⟩
    · rw [hstep]
      exact ⟨h.expectedAcks_eq, h.ackDeadline_eq, h.rotateAt_eq, h.lastActivity_eq, h.sending_eq,
        hmono.closing_of, fun e he hne => absurd (Option.some.inj he).symm hne⟩
    · rw [hstep]
      exact ⟨h.expectedAcks_eq, h.ackDeadline_eq, h.rotateAt_eq, h.lastActivity_eq, h.sending_eq,
        hmono.closing_of, fun _ _ _ => hsending⟩

/-- The grounds of a subscription that is turned down. -/
theorem grounds_ackRejectionExit {s : WssTransport E} {is : List SocketInput}
    {read all : List (WsMessage × ReadEnv)} {reason : String} (hacc : Accounts v s read)
    (hall : ∀ r ∈ all, r ∈ read ∨ v.holdsEvent r = false) (hread : ∀ r ∈ read, r ∈ all)
    (hdown : TurnedDown v openedNs is all reason) :
    Grounds v openedNs is all (ackRejectionExit s.streamed reason) := by
  have hstreamed := hacc.streamed_eq
  unfold ackRejectionExit
  cases hs : s.streamed with
  | true =>
    rw [hs] at hstreamed
    obtain ⟨r, hr, hevent⟩ := List.any_eq_true.mp hstreamed.symm
    exact .inr ⟨reason, rfl, ⟨r, hread r hr, hevent⟩, hdown⟩
  | false =>
    rw [hs] at hstreamed
    refine ⟨fun r hr => ?_, hdown⟩
    rcases hall r hr with hr | hr
    · exact Bool.eq_false_iff.mpr (List.any_eq_false.mp hstreamed.symm r hr)
    · exact hr

/-- The grounds of a loop that a frame ends. -/
theorem grounds_settle {s : WssTransport E} {is : List SocketInput}
    {read : List (WsMessage × ReadEnv)} (halive : s.exit = none) (hacc : Accounts v s read)
    (env : ReadEnv) (m : WsMessage) {e : WssExitReason}
    (h : (s.settle env (v.fate m)).1.exit = some e) :
    Grounds v openedNs is (read ++ [(m, env)]) e := by
  have hmem : (m, env) ∈ read ++ [(m, env)] := List.mem_append_right _ (List.mem_singleton.mpr rfl)
  have hnone : some e ≠ s.exit := by
    rw [halive]
    exact Option.some_ne_none e
  unfold settle at h
  cases hfate : v.fate m with
  | reply frame =>
    rw [hfate] at h
    dsimp only at h
    split at h
    · next error herror =>
      obtain rfl := Option.some.inj h
      exact ⟨(m, env), hmem, herror, frame, hfate⟩
    · exact absurd h.symm hnone
  | rejection reason =>
    rw [hfate] at h
    obtain rfl := Option.some.inj h
    refine grounds_ackRejectionExit hacc (fun r hr => ?_)
      (fun r hr => List.mem_append_left _ hr) (.inl ⟨(m, env), hmem, hfate⟩)
    rcases List.mem_append.mp hr with hr | hr
    · exact .inl hr
    · rw [List.mem_singleton.mp hr]
      unfold VenueProtocol.holdsEvent
      rw [hfate]
      exact .inr rfl
  | _ =>
    rw [hfate] at h
    exact absurd h.symm hnone

theorem grounds_onMessage {s : WssTransport E} {is : List SocketInput}
    {read : List (WsMessage × ReadEnv)} (halive : s.exit = none) (hacc : Accounts v s read)
    (env : ReadEnv) (m : WsMessage) {e : WssExitReason}
    (h : (s.onMessage v env m).1.exit = some e) :
    Grounds v openedNs is (read ++ [(m, env)]) e := by
  have hnone : some e ≠ s.exit := by
    rw [halive]
    exact Option.some_ne_none e
  cases m with
  | text text =>
    have heq : s.onMessage v env (.text text) = s.settle env (v.fate (.text text)) :=
      onText_eq_settle v s env text
    rw [heq] at h
    exact grounds_settle halive hacc env _ h
  | binary bytes =>
    rw [onMessage_binary] at h
    exact grounds_settle halive hacc env _ h
  | close frame =>
    obtain rfl := Option.some.inj h
    exact ⟨_, List.mem_append_right _ (List.mem_singleton.mpr rfl), rfl⟩
  | pong payload =>
    unfold onMessage onPong at h
    dsimp only at h
    split at h
    · exact absurd h.symm hnone
    · split at h <;> exact absurd h.symm hnone
  | _ => exact absurd h.symm hnone

/-- The grounds of a loop that ends without a message. -/
theorem grounds_of_due {s : WssTransport E} {is : List SocketInput}
    {read : List (WsMessage × ReadEnv)} (hacc : Accounts v s read)
    (hwatch : Watch v openedNs is s read) {i : SocketInput} (hmem : i ∈ is) {e : WssExitReason}
    (h : Due v s e i) : Grounds v openedNs is read e := by
  cases i with
  | readError error =>
    obtain rfl := h
    exact hmem
  | ended =>
    obtain rfl := h
    exact .inl hmem
  | shutdown frames wrote =>
    obtain rfl := h
    exact .inr ⟨frames, wrote, hmem⟩
  | heartbeatDied =>
    obtain rfl := h
    exact .inl ⟨rfl, hmem⟩
  | silence nowNs =>
    obtain ⟨rfl, hdue⟩ := h
    rw [hwatch.lastActivity_eq] at hdue
    exact ⟨rfl, nowNs, hmem, hdue⟩
  | age nowNs wrote =>
    obtain ⟨rfl, hdue⟩ := h
    rw [hwatch.rotateAt_eq] at hdue
    cases hlife : v.connectionLifetime with
    | none =>
      rw [hlife] at hdue
      cases hdue
    | some lifetime =>
      rw [hlife] at hdue
      unfold rotationDeadline at hdue
      rw [Option.map_some, Option.any_some, decide_eq_true_iff] at hdue
      exact ⟨hlife, nowNs, wrote, hmem, hdue⟩
  | ackTimer nowNs =>
    obtain ⟨rfl, hfew, hdue⟩ := h
    refine grounds_ackRejectionExit hacc (fun r hr => .inl hr) (fun r hr => hr) (.inr ?_)
    rw [hacc.acked_eq, hwatch.expectedAcks_eq] at hfew ⊢
    rw [hwatch.ackDeadline_eq] at hdue
    cases hdeadline : v.subscribeAckDeadline with
    | none =>
      rw [hdeadline] at hdue
      cases hdue
    | some deadline =>
      rw [hdeadline, Option.map_some, Option.any_some, decide_eq_true_iff] at hdue
      exact ⟨rfl, hfew, nowNs, deadline, hmem, hdeadline, hdue⟩
  | _ => exact h.elim

/-- What a loop has read stays read, and what it has found, found. -/
theorem Grounds.mono {is is' : List SocketInput} {read : List (WsMessage × ReadEnv)}
    {e : WssExitReason} (h : Grounds v openedNs is read e) (hsub : is ⊆ is') :
    Grounds v openedNs is' read e := by
  have hdown : ∀ {reason}, TurnedDown v openedNs is read reason →
      TurnedDown v openedNs is' read reason := by
    intro reason hdown
    refine hdown.imp_right (fun hfew => ?_)
    obtain ⟨htext, hless, nowNs, deadline, hmem, hdue⟩ := hfew
    exact ⟨htext, hless, nowNs, deadline, hsub hmem, hdue⟩
  cases e with
  | streamEnded =>
    refine h.imp (fun hmem => hsub hmem) (fun hshut => ?_)
    obtain ⟨frames, wrote, hmem⟩ := hshut
    exact ⟨frames, wrote, hsub hmem⟩
  | receiverDropped => exact ⟨h.1, hsub h.2⟩
  | transport error => exact hsub h
  | connectionFailed message =>
    refine h.imp (fun hbeat => ⟨hbeat.1, hsub hbeat.2⟩) (fun hdata => ?_)
    obtain ⟨reason, htext, hevent, hturned⟩ := hdata
    exact ⟨reason, htext, hevent, hdown hturned⟩
  | subscriptionRejected reason => exact ⟨h.1, hdown h.2⟩
  | stale silenceNs =>
    obtain ⟨hsilence, nowNs, hmem, hdue⟩ := h
    exact ⟨hsilence, nowNs, hsub hmem, hdue⟩
  | plannedRotation lifetimeNs =>
    obtain ⟨hlife, nowNs, wrote, hmem, hdue⟩ := h
    exact ⟨hlife, nowNs, wrote, hsub hmem, hdue⟩
  | _ => exact h

/-- **One turn of the loop** ends it only on grounds. -/
theorem grounds_step {is : List SocketInput} {s : WssTransport E}
    {read : List (WsMessage × ReadEnv)} (hacc : Accounts v s read)
    (hwatch : Watch v openedNs is s read)
    (h : ∀ e, s.exit = some e → Grounds v openedNs is read e) (i : SocketInput)
    {e : WssExitReason} (he : (s.step v i).1.exit = some e) :
    Grounds v openedNs (is ++ [i]) (read ++ (s.taken i).toList) e := by
  have hmem : i ∈ is ++ [i] := List.mem_append_right _ (List.mem_singleton.mpr rfl)
  have hstays : s.exit = some e → Grounds v openedNs (is ++ [i]) read e :=
    fun hexit => (h e hexit).mono (List.subset_append_left is [i])
  cases hselects : s.selects with
  | true =>
    rw [step_of_selects hselects] at he
    rw [taken_of_selects hselects]
    cases hi : i.read? with
    | none =>
      rw [Option.toList_none, List.append_nil]
      rcases turn_of_not_read v s hi with hturn | ⟨n, e', ws, hturn, -, hdue⟩ | ⟨_, _, -, -, hturn⟩
      · rw [hturn] at he
        exact hstays he
      · rw [hturn] at he
        obtain rfl := Option.some.inj he
        exact grounds_of_due hacc (hwatch.mono i) hmem hdue
      · rw [hturn] at he
        exact hstays he
    | some r =>
      cases i with
      | message m env =>
        obtain rfl := Option.some.inj hi
        have hseen : Accounts v { s with lastActivity := env.atNs } read :=
          hacc.congr rfl rfl rfl rfl rfl rfl
        exact grounds_onMessage (s := { s with lastActivity := env.atNs })
          (selects_iff.mp hselects).1 hseen env m he
      | _ => cases hi
  | false =>
    rw [taken_of_not_selects hselects, Option.toList_none, List.append_nil]
    rcases step_of_not_selects (v := v) hselects i with
      hstep | ⟨f, -, -, -, hstep⟩ | ⟨f, -, hf, rfl, hstep⟩ | ⟨-, -, hclosing, hstep⟩
    · rw [hstep] at he
      exact hstays he
    · rw [hstep] at he
      exact hstays he
    · rw [hstep] at he
      obtain rfl := Option.some.inj he
      -- the event that is refused is that of the last message
      obtain ⟨r, hlast, hdelivered⟩ := Option.bind_eq_some_iff.mp (hwatch.sending_eq f hf)
      refine ⟨⟨r, hlast, ?_⟩, hmem⟩
      obtain ⟨ev, hev, -⟩ := Option.map_eq_some_iff.mp hdelivered
      exact Option.isSome_of_eq_some hev
    · rw [hstep] at he
      obtain rfl := Option.some.inj he
      obtain ⟨frames, wrote, hshut⟩ := hwatch.closing_of hclosing
      exact .inr ⟨frames, wrote, List.mem_append_left _ hshut⟩

/-- The watch and the grounds are kept by a run. -/
theorem watch_grounds_run (openedNs : ℕ) (is : List SocketInput) :
    Watch v openedNs is ((machine v).run (start v openedNs) is).1
        (readBy v (start v openedNs) is) ∧
      ∀ e, ((machine v).run (start v openedNs) is).1.exit = some e →
        Grounds v openedNs is (readBy v (start v openedNs) is) e := by
  induction is using List.reverseRecOn with
  | nil => exact ⟨watch_start openedNs, fun e he => absurd he.symm (Option.some_ne_none e)⟩
  | append_singleton is i ih =>
    obtain ⟨hwatch, hgrounds⟩ := ih
    have hacc := accounts_run (accounts_start (v := v) openedNs) is
    rw [List.nil_append] at hacc
    have hread : readBy v (start v openedNs) (is ++ [i]) = readBy v (start v openedNs) is
        ++ (((machine v).run (start v openedNs) is).1.taken i).toList :=
      (machine v).collect_append_singleton taken _ is i
    rw [Machine.run_append_singleton, hread]
    exact ⟨hwatch.step i, fun e he => grounds_step hacc hwatch hgrounds i he⟩

/-- **No exit without its cause.** However a run of the loop goes, if it has
ended then what it ends with has its grounds in what the run met. -/
theorem grounds_run (openedNs : ℕ) (is : List SocketInput) {e : WssExitReason}
    (h : ((machine v).run (start v openedNs) is).1.exit = some e) :
    Grounds v openedNs is (readBy v (start v openedNs) is) e :=
  (watch_grounds_run openedNs is).2 e h

/-- A venue of two subscriptions that turns the second down. -/
def refusing : VenueProtocol ℕ where
  endpoint := "wss://venue"
  frameCodec := .plainText
  inflateBytes n bytes := some (bytes.take n)
  subscribeFrames := [.text "subscribe book", .text "subscribe trades"]
  unsubscribeFrames := []
  classifyAck text :=
    if text = "subscribed" then .accepted
    else if text = "error" then .rejected none "no such channel"
    else .notAck
  onInboundControl text := if text = "ping" then .reply (.text "pong") else .ignore
  decode text := .ok (some text.length)
  subscribeAckDeadline := some 10000000000
  connectionLifetime := none
  staleAfter := 30000000000

/-- A text that comes at this time, while nothing else is amiss. -/
def textAt (text : String) (atNs : ℕ) : SocketInput :=
  .message (.text text) ⟨atNs, atNs / 1000, false, none⟩

/-- One subscription is acknowledged and brings an event; the time for the other runs
out. -/
def halfSubscribed : List SocketInput :=
  [textAt "subscribed" 1000, textAt "ping" 2000, textAt "data" 3000, .accepted,
    .ackTimer 9000000000, .ackTimer 10000000000]

theorem grounds_run_refusing :
    Grounds refusing 0 halfSubscribed (readBy refusing (start refusing 0) halfSubscribed)
      (.connectionFailed
        "stream error after data: only 1 of 2 subscriptions acked before deadline") :=
  grounds_run 0 halfSubscribed rfl

end WssTransport

namespace DisconnectReason

/-- The ends no retry can heal: nobody listens, the subscription was turned down,
or the other side says that the protocol was violated. -/
theorem isRetryable_ofExit_eq_false {e : WssExitReason} (h : (ofExit e).isRetryable = false) :
    e = .receiverDropped ∨ (∃ reason, e = .subscriptionRejected reason)
      ∨ (∃ frame : CloseFrame, e = .serverClose (some frame)
        ∧ (frame.code = 1002 ∨ frame.code = 1003 ∨ frame.code = 1008))
      ∨ ∃ message, e = .transport (.protocol message) := by
  cases e with
  | receiverDropped => exact .inl rfl
  | subscriptionRejected reason => exact .inr (.inl ⟨reason, rfl⟩)
  | serverClose frame =>
    cases frame with
    | none => cases h
    | some frame =>
      refine .inr (.inr (.inl ⟨frame, rfl, ?_⟩))
      unfold ofExit classifyCloseFrame at h
      dsimp only at h
      split at h
      · cases h
      · split at h
        · cases h
        · split at h
          · next hcode => exact .inl hcode
          · split at h
            · next hcode => exact .inr hcode
            · cases h
  | transport error =>
    cases error with
    | protocol message => exact .inr (.inr (.inr ⟨message, rfl⟩))
    | other message => cases h
  | _ => cases h

end DisconnectReason

namespace WssTransport

variable {v : VenueProtocol E}

/-- **When a connection is given up for good.** A run that ends with a reason no
retry can heal either found the driver gone, or has forwarded nothing and was
turned down by the venue, or the other side called a violation of the
protocol. -/
theorem given_up_run (openedNs : ℕ) (is : List SocketInput) {e : WssExitReason}
    (h : ((machine v).run (start v openedNs) is).1.exit = some e)
    (hfinal : (DisconnectReason.ofExit e).isRetryable = false) :
    ((∃ r, (readBy v (start v openedNs) is).getLast? = some r ∧ v.holdsEvent r = true)
        ∧ .refused ∈ is)
      ∨ (((machine v).run (start v openedNs) is).2.filterMap SocketEffect.forwarded? = []
        ∧ ∃ reason, TurnedDown v openedNs is (readBy v (start v openedNs) is) reason)
      ∨ (∃ r ∈ readBy v (start v openedNs) is, ∃ frame : CloseFrame, r.1 = .close (some frame)
        ∧ (frame.code = 1002 ∨ frame.code = 1003 ∨ frame.code = 1008))
      ∨ ∃ message, .readError (.protocol message) ∈ is := by
  have hgrounds := (watch_grounds_run openedNs is).2 e h
  rcases DisconnectReason.isRetryable_ofExit_eq_false hfinal with
    rfl | ⟨reason, rfl⟩ | ⟨frame, rfl, hcode⟩ | ⟨message, rfl⟩
  · exact .inl hgrounds
  · obtain ⟨hnone, hdown⟩ := hgrounds
    refine .inr (.inl ⟨?_, reason, hdown⟩)
    have hquiet : (readBy v (start v openedNs) is).filterMap v.delivered = [] := by
      refine List.filterMap_eq_nil_iff.mpr (fun r hr => ?_)
      have hevent := hnone r hr
      unfold VenueProtocol.holdsEvent at hevent
      unfold VenueProtocol.delivered
      rw [Option.isSome_eq_false_iff, Option.isNone_iff_eq_none] at hevent
      rw [hevent, Option.map_none]
    have hforward := forwarded_run (v := v) (start v openedNs) is
    rw [hquiet] at hforward
    exact (List.append_eq_nil_iff.mp hforward).1
  · obtain ⟨r, hr, hclose⟩ := hgrounds
    exact .inr (.inr (.inl ⟨r, hr, frame, hclose, hcode⟩))
  · exact .inr (.inr (.inr ⟨message, hgrounds⟩))

/-- One subscription is acknowledged, the other turned down. -/
def turnedDown : List SocketInput :=
  [textAt "subscribed" 1000, textAt "ping" 2000, textAt "error" 3000]

theorem given_up_run_refusing :
    ((∃ r, (readBy refusing (start refusing 0) turnedDown).getLast? = some r
          ∧ refusing.holdsEvent r = true)
        ∧ .refused ∈ turnedDown)
      ∨ (((machine refusing).run (start refusing 0) turnedDown).2.filterMap
            SocketEffect.forwarded? = []
        ∧ ∃ reason, TurnedDown refusing 0 turnedDown
          (readBy refusing (start refusing 0) turnedDown) reason)
      ∨ (∃ r ∈ readBy refusing (start refusing 0) turnedDown,
        ∃ frame : CloseFrame, r.1 = .close (some frame)
          ∧ (frame.code = 1002 ∨ frame.code = 1003 ∨ frame.code = 1008))
      ∨ ∃ message, .readError (.protocol message) ∈ turnedDown :=
  given_up_run 0 turnedDown (e := .subscriptionRejected "no such channel") rfl rfl

end WssTransport
