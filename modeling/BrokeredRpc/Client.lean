import BrokeredRpc.ClientConfig
import BrokeredRpc.Replies

/-!
# Clients

A client opens one reply queue, subscribes to it, and then makes any number of
calls, each under an id of its own. Its life goes from unopened to opened to
closed, and never back.

A client never talks to a broker by itself. An operation on it advances in
stages: between two stages it asks its transport for something, and `resume`
takes the answer, whatever it is. At most one operation of a client is under way
at a time; replies and the end of the subscription may come in between, because
they touch the client's `replies` only. So the same definitions describe a
client on any transport and under any interleaving with its replies.

Once its request is published, a call waits: `look` is one look of the waiting
caller at its slot.
-/
namespace BrokeredRpc

inductive Lifecycle
  | unopened
  | opened (queue tag : String)
  | closed (queue : String)
  deriving DecidableEq

structure Client where
  timeout : Timeout := .infinite
  lifecycle : Lifecycle := .unopened
  /-- How many calls have been given an id. -/
  lastId : Nat := 0
  replies : Replies := {}
  deriving DecidableEq

/-- What a user asks of a client. -/
inductive Client.Operation
  | opening
  | closing
  | calling (message : Message)

/-- Where an operation of a client stands: what it has asked its transport for,
and what it needs to know when the answer comes. -/
inductive Client.Stage
  | declaring
  | subscribing (queue : String)
  | discarding (queue : String) (failure : TransportError)
  | cancelling (queue tag : String)
  | publishing (id : String) (message : Message)

/-- What the transport grants at a stage: a name where it assigns one. -/
abbrev Client.Stage.Grant : Client.Stage → Type
  | .declaring | .subscribing _ => String
  | .discarding .. | .cancelling .. | .publishing .. => Unit

/-- How far an operation of a client has come. -/
inductive Client.Progress
  | asking (stage : Client.Stage)
  | done
  | failed (error : CallError)
  | waiting (id : String)

namespace Client

instance : Inhabited Client := ⟨{}⟩

def ofConfig (config : ClientConfig) : Client := { timeout := config.timeout }

def isOpen (c : Client) : Bool := c.lifecycle matches .opened ..

/-- The reply queue, from the first opening on. -/
def replyQueue? (c : Client) : Option String :=
  match c.lifecycle with
  | .unopened => none
  | .opened queue _ => some queue
  | .closed queue => some queue

/-- How many calls wait for a reply. -/
def pendingCalls (c : Client) : Nat := c.replies.registry.size

/-- An event arrives on the client's reply subscription `tag`. -/
def receive (c : Client) (tag : String) (event : Event) : Client :=
  { c with replies := c.replies.handle tag event }

/-! ## Operations -/

/-- Begins to open: a client opens once. -/
def startOpen (c : Client) : Client × Progress :=
  match c.lifecycle with
  | .unopened => (c, .asking .declaring)
  | .opened .. => (c, .failed .alreadyOpen)
  | .closed _ => (c, .failed .closed)

/-- Begins to close: a client that is not open has nothing to do. -/
def startClose (c : Client) : Client × Progress :=
  match c.lifecycle with
  | .opened queue tag => (c, .asking (.cancelling queue tag))
  | .unopened | .closed _ => (c, .done)

/-- The text of a call's number. -/
def idOf (number : Nat) : String := toString number

/-- The properties of a request: the caller's, except for the call's id and the
address of its reply. -/
def stamp (properties : Properties) (id replyQueue : String) : Properties :=
  (properties.set .correlationId id).set .replyTo replyQueue

/-- Begins a call: gives it the next id and registers it. Only then is there a
message to publish. -/
def startCall (c : Client) (m : Message) : Client × Progress :=
  match c.lifecycle with
  | .unopened | .closed _ => (c, .failed .notOpen)
  | .opened queue _ =>
    let number := c.lastId + 1
    let id := idOf number
    match c.replies.register id id with
    | (.error cause, replies) =>
      ({ c with lastId := number, replies }, .failed (.transportShutdown cause))
    | (.ok (), replies) =>
      ({ c with lastId := number, replies },
        .asking (.publishing id { m with properties := stamp m.properties id queue }))

/-- Begins an operation. -/
def start (c : Client) : Operation → Client × Progress
  | .opening => c.startOpen
  | .closing => c.startClose
  | .calling m => c.startCall m

/-- Takes a call out of the registry. -/
def withdraw (c : Client) (id : String) : Client :=
  { c with replies := (c.replies.take id).2 }

/-- Takes the transport's answer to what was asked at a stage. -/
def resume (c : Client) : (stage : Stage) → Except TransportError stage.Grant → Client × Progress
  | .declaring, .ok queue => (c, .asking (.subscribing queue))
  | .declaring, .error e => (c, .failed (.transport e))
  | .subscribing queue, .ok tag => ({ c with lifecycle := .opened queue tag }, .done)
  | .subscribing queue, .error e => (c, .asking (.discarding queue e))
  | .discarding _ failure, _ => (c, .failed (.transport failure))
  | .cancelling queue _, .ok () => ({ c with lifecycle := .closed queue }, .done)
  | .cancelling queue _, .error (.channelClosed _) =>
    ({ c with lifecycle := .closed queue }, .done)
  | .cancelling .., .error e => (c, .failed (.transport e))
  | .publishing id _, .ok () => (c, .waiting id)
  | .publishing id _, .error (.channelClosed cause) =>
    (c.withdraw id, .failed (.transportShutdown cause))
  | .publishing id _, .error e => (c.withdraw id, .failed (.transport e))

/-- How many requests an operation may still make after this stage. -/
def Stage.ahead : Stage → Nat
  | .declaring => 2
  | .subscribing _ => 1
  | .discarding .. | .cancelling .. | .publishing .. => 0

theorem ahead_resume_lt {c : Client} {stage next : Stage}
    {answer : Except TransportError stage.Grant}
    (h : (c.resume stage answer).2 = .asking next) : next.ahead < stage.ahead := by
  cases stage <;> rcases answer with e | v
  case declaring.error => cases h
  case declaring.ok => cases h; simp [Stage.ahead]
  case subscribing.error => cases h; simp [Stage.ahead]
  case subscribing.ok => cases h
  case discarding.error => cases h
  case discarding.ok => cases h
  case cancelling.error => cases e <;> cases h
  case cancelling.ok => cases h
  case publishing.error => cases e <;> cases h
  case publishing.ok => cases h

/-! ## Waiting for a reply -/

/-- One look, at `now`, of a caller that has waited for the call `id` since
`since`; no result means that the wait goes on. A wait that is over is a timeout
only if the caller is the one to take its slot out of the registry: otherwise
the slot is about to be filled. -/
def look (c : Client) (id : String) (since now : Nat) :
    Option (Except CallError Bytes) × Client :=
  match (c.replies.slot id).look c.timeout since now with
  | none => (none, c)
  | some (.ok outcome) => (some outcome.toResult, c)
  | some (.error expired) =>
    match c.replies.take id with
    | (some _, replies) => (some (.error (.timeout id expired.waited)), { c with replies })
    | (none, replies) => (none, { c with replies })

end Client

end BrokeredRpc
