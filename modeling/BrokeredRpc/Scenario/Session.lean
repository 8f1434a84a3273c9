import BrokeredRpc.Scenario.Step

/-!
# Playing a scenario

A session is a scenario in the course of being played: its network, a clock, and
what the names stand for. After every step all events in transit are handled,
and every caller looks for its reply. The clock moves only when something is
waited for that does not come, and then as far as that wait goes; every call
that is due by then times out.

A name that is given again stands for the new thing only. What it stood for
before goes on without a name: a call still waits for its reply, and a client is
closed once no call of it waits any more.
-/
namespace BrokeredRpc.Scenario

/-- A call: waiting, or come back with its result. -/
inductive Call
  | waiting (client : Nat) (id : String) (since : Nat)
  | returned (result : Except CallError Bytes)

/-- A sink under a name, with the requests taken from it so far. -/
structure NamedSink where
  station : Network.Station
  taken : List Request := []

structure Session where
  network : Network := {}
  now : Nat := 0
  /-- The queue names used so far. -/
  known : Table Unit := ∅
  clients : Table Nat := ∅
  /-- Clients without a name that are not closed yet. -/
  dropped : List Nat := []
  /-- All calls made so far. -/
  calls : Array Call := #[]
  /-- The calls, by their places, that have a name and are not joined yet. -/
  unjoinedCalls : Table Nat := ∅
  recorders : Table String := ∅
  servers : Table String := ∅
  sinks : Table NamedSink := ∅

namespace Session

instance : Inhabited Session := ⟨{}⟩

def know (s : Session) (queue : String) : Session :=
  { s with known := s.known.insert queue () }

def knowAll (s : Session) (queues : List String) : Session := queues.foldl know s

/-- The known queues that exist. -/
def depths (s : Session) : Depths :=
  s.known.keys.filterMap fun queue =>
    (s.network.broker.queueDepth? queue).map (queue, ·)

def client? (s : Session) (name : String) : Option Client :=
  (s.clients.get? name).bind s.network.client?

/-! ## Settling -/

/-- The caller at a place looks once at its slot. -/
def lookAt (s : Session) (place : Nat) : Session :=
  match s.calls[place]? with
  | some (.waiting index id since) =>
    match s.network.client? index with
    | none => s
    | some client =>
      let (result, client) := client.look id since s.now
      let s := { s with network := s.network.setClient index client }
      match result with
      | none => s
      | some result => { s with calls := s.calls.setIfInBounds place (.returned result) }
  | _ => s

/-- Every caller looks once. -/
def lookAll (s : Session) : Session := s.calls.size.fold (fun place _ s => s.lookAt place) s

/-- Whether a call of a client waits. -/
def isCalling (s : Session) (index : Nat) : Bool :=
  s.calls.any fun
    | .waiting client .. => client == index
    | .returned _ => false

/-- Closes the dropped clients that no call uses, whether or not that
succeeds. -/
def closeDropped (s : Session) : Session :=
  let (used, unused) := s.dropped.partition s.isCalling
  let network := unused.foldl (fun n index => (n.runClient index .closing).2) s.network
  { s with dropped := used, network := network.settle }

/-- Handles what is in transit and tells the callers. -/
def settle (s : Session) : Session :=
  { s with network := s.network.settle }.lookAll.closeDropped

/-- The clock moves to `instant`, never back. -/
def advance (s : Session) (instant : Nat) : Session :=
  { s with now := max s.now instant }.settle

/-- How long a step waits for events that do not come: five seconds. -/
def patience : Nat := 5_000_000_000

/-- Waits in vain. -/
def waitInVain (s : Session) : Session := s.advance (s.now + patience)

/-! ## Calls -/

/-- A call as far as its publication, and its place; `none` for a client that
does not exist. -/
def beginCall (s : Session) (request : CallRequest) : Option Nat × Session :=
  match s.clients.get? request.client with
  | none => (none, s)
  | some index =>
    let (conclusion, network) := s.network.runClient index (.calling request.message)
    let call? : Option Call := match conclusion with
      | .failed error => some (.returned (.error error))
      | .waiting id => some (.waiting index id s.now)
      | .done => none
    match call? with
    | none => (none, { s with network }.settle)
    | some call => (some s.calls.size, { s with network, calls := s.calls.push call }.settle)

/-- The result of a call that has come back. -/
def result? (s : Session) (place : Nat) : Option (Except CallError Bytes) :=
  match s.calls[place]? with
  | some (.returned result) => some result
  | _ => none

/-- Waits for the end of a call, until its deadline if it has one. -/
def finishCall (s : Session) (place : Nat) : Option (Except CallError Bytes) × Session :=
  match s.calls[place]? with
  | some (.waiting index _ since) =>
    match (s.network.client? index).bind (·.timeout.deadline? since) with
    | none => (none, s)
    | some deadline =>
      let s := s.advance deadline
      (s.result? place, s)
  | _ => (s.result? place, s)

def call (s : Session) (request : CallRequest) :
    Option (Except CallError Bytes) × Session :=
  match s.beginCall request with
  | (some place, s) => s.finishCall place
  | (none, s) => (none, s)

/-- A call as far as its publication, under a name. -/
def startCall (s : Session) (name : String) (request : CallRequest) : Session :=
  match s.beginCall request with
  | (some place, s) => { s with unjoinedCalls := s.unjoinedCalls.insert name place }
  | (none, s) => s

def join (s : Session) (name : String) : Option (Except CallError Bytes) × Session :=
  match s.unjoinedCalls.get? name with
  | none => (none, s)
  | some place => { s with unjoinedCalls := s.unjoinedCalls.erase name }.finishCall place

/-! ## Clients -/

def createClient (s : Session) (name : String) (channel : Nat) (config : ClientConfig) :
    Session :=
  let endpoints := s.network.endpoints
  { s with
    clients := s.clients.insert name endpoints.size
    network.endpoints := endpoints.push { client := .ofConfig config, channel } }

/-- Opens or closes a client. -/
def operateClient (s : Session) (name : String) (op : Client.Operation) :
    Except CallError Unit × Session :=
  match s.clients.get? name with
  | none => (.ok (), s)
  | some index =>
    let (conclusion, network) := s.network.runClient index op
    let s := { s with network }.settle
    match conclusion with
    | .failed error => (.error error, s)
    | .done | .waiting _ => (.ok (), s)

/-- Forgets a client's name. -/
def dropClient (s : Session) (name : String) : Session :=
  match s.clients.get? name with
  | none => s
  | some index =>
    { s with clients := s.clients.erase name, dropped := s.dropped ++ [index] }.settle

/-- The reply queue of a client becomes known. -/
def knowReplyQueue (s : Session) (name : String) : Session :=
  s.knowAll ((s.client? name).bind (·.replyQueue?)).toList

/-! ## Steps -/

/-- The queue names that an operation makes known, whatever its answer. -/
def namesIn : Broker.Operation → List String
  | .declareQueue _ queue => [queue]
  | _ => []

/-- The queue names that an operation makes known by its answer. -/
def namesOut : Broker.Operation → Except TransportError Broker.Operation.Value → List String
  | .declareExclusive _, .ok (.name queue) => [queue]
  | _, _ => []

def operate (s : Session) (op : Broker.Operation) :
    Except TransportError Broker.Operation.Value × Session :=
  let (result, network) := s.network.operate op
  (result, ({ s with network }.knowAll (namesIn op ++ namesOut op result)).settle)

/-- Opens channels one after another and returns the last number, zero if there
is none. -/
def openChannels (s : Session) (count : Nat) : Nat × Session :=
  let broker := count.fold (fun _ _ b => (Broker.openChannel b).2) s.network.broker
  (if count = 0 then 0 else broker.channels.size, { s with network.broker := broker })

/-- Publishes the numbers from zero up as texts, before any of them is handled,
and returns the last answer. -/
def publishMany (s : Session) (channel count : Nat) (m : Message) :
    Except TransportError Broker.Operation.Value × Session :=
  let publish := fun (_, broker, sent) i =>
    let effect := Broker.perform broker
      (.publish channel { m with body := .ofText (toString i) })
    (effect.answer, effect.broker, Log.append sent effect.sent)
  let (answer, broker, sent) :=
    (List.range count).foldl publish (.ok .nothing, s.network.broker, ∅)
  let network := { s.network with broker, transit := s.network.transit ++ sent.toList }
  (answer, { s with network }.settle)

/-- The events that a recorder holds. -/
def eventsOf (s : Session) (tag : String) : List Event :=
  match s.network.consumers.get? tag with
  | some { role := .recorder events, .. } => events.toList
  | _ => []

/-- The first events of a recorder, removed from it; waits in vain for those
that are missing. -/
def takeEvents (s : Session) (name : String) (count : Nat) : Recording × Session :=
  match s.recorders.get? name with
  | none => ({ tag := "", events := [] }, s)
  | some tag =>
    let s := if (s.eventsOf tag).length < count then s.waitInVain else s
    let events := s.eventsOf tag
    let consumers := s.network.consumers.modify tag fun c =>
      { c with role := .recorder (.ofList (events.drop count)) }
    ({ tag, events := events.take count }, { s with network.consumers := consumers })

/-- The requests that a sink holds. -/
def requestsOf (s : Session) (sink : NamedSink) : List Request :=
  match s.network.consumers.get? sink.station.tag with
  | some { role := .sink received, .. } => received.toList
  | _ => []

/-- The next request of a sink, which the sink's list then holds; waits in vain
if there is none. -/
def receive (s : Session) (name : String) : Option Request × Session :=
  match s.sinks.get? name with
  | none => (none, s)
  | some sink =>
    match s.requestsOf sink with
    | [] => (none, s.waitInVain)
    | request :: rest =>
      let consumers := s.network.consumers.modify sink.station.tag fun c =>
        { c with role := .sink (.ofList rest) }
      (some request,
        { s with
          sinks := s.sinks.insert name { sink with taken := sink.taken ++ [request] }
          network.consumers := consumers })

/-- Replies by hand to a request taken from a sink. -/
def reply (s : Session) (name : String) (index : Nat) (properties : Properties)
    (body : Bytes) : Except ResponderError Unit × Session :=
  match s.sinks.get? name with
  | none => (.ok (), s)
  | some sink =>
    match sink.taken[index]? with
    | none => (.ok (), s)
    | some request =>
      let (result, network) := s.network.reply sink.station.channel request properties body
      (result, { s with network }.settle)

/-- Takes over a responder's establishment and files its station. -/
def settleResponder (s : Session) (queue : String)
    (established : Except ResponderError Network.Station × Network)
    (file : Session → Network.Station → Session) : Except ResponderError Nat × Session :=
  let (result, network) := established
  let s := ({ s with network }.know queue).settle
  match result with
  | .ok station => (.ok station.channel, file s station)
  | .error e => (.error e, s)

/-- One step and its answer. -/
def play (s : Session) : Step → Answer × Session
  | .operate op =>
    let (result, s) := s.operate op
    (.operated result, s)
  | .openChannels count =>
    let (last, s) := s.openChannels count
    (.number (some last), s)
  | .publishMany channel count m =>
    let (result, s) := s.publishMany channel count m
    (.operated result, s)
  | .isOpen channel => (.flag (s.network.broker.isOpen channel), s)
  | .hasQueue queue => (.flag (s.network.broker.hasQueue queue), s)
  | .queueDepth queue => (.number (s.network.broker.queueDepth? queue), s)
  | .record name channel queue =>
    match s.network.subscribe channel queue (.recorder ∅) with
    | (.ok tag, network) =>
      (.operated (.ok (.name tag)),
        { s with network, recorders := s.recorders.insert name tag }.settle)
    | (.error e, network) => (.operated (.error e), { s with network }.settle)
  | .take name count =>
    let (recording, s) := s.takeEvents name count
    (.recorded recording, s)
  | .serve name queue handler =>
    let (result, s) := s.settleResponder queue (s.network.serve queue handler)
      fun s station => { s with servers := s.servers.insert name station.tag }
    (.settled result, s)
  | .sink name queue =>
    let (result, s) := s.settleResponder queue (s.network.sink queue)
      fun s station => { s with sinks := s.sinks.insert name { station } }
    (.settled result, s)
  | .receive sink =>
    let (request, s) := s.receive sink
    (.received request, s)
  | .reply sink index properties body =>
    let (result, s) := s.reply sink index properties body
    (.replied result, s)
  | .batch queue size order =>
    let (result, s) := s.settleResponder queue
      (s.network.batch queue { size, release := order.arrange }) fun s _ => s
    (.settled result, s)
  | .createClient name channel source =>
    match ClientConfig.ofSource source with
    | .error e => (.created (.error e), s)
    | .ok config =>
      (.created (.ok (config.timeout, channel)),
        (s.dropClient name).createClient name channel config)
  | .injectFaults name faults =>
    match s.clients.get? name with
    | none => (.nothing, s)
    | some index =>
      (.nothing, { s with
        network.endpoints := s.network.endpoints.modify index ({ · with faults }) })
  | .openClient name =>
    let (result, s) := s.operateClient name .opening
    (.concluded result, s.knowReplyQueue name)
  | .closeClient name =>
    let (result, s) := s.operateClient name .closing
    (.concluded result, s)
  | .dropClient name => (.nothing, s.dropClient name)
  | .clientState name =>
    match s.client? name with
    | none => (.nothing, s)
    | some c => (.client (.of c), s)
  | .call request =>
    let (result, s) := s.call request
    (.called result, s)
  | .startCall name request => (.nothing, s.startCall name request)
  | .join name =>
    let (result, s) := s.join name
    (.called result, s)

/-- The steps one after another, each with its answer and the depths after it. -/
def playAll (s : Session) : List Step → List (Answer × Depths) × Session
  | [] => ([], s)
  | step :: rest =>
    let (answer, s) := s.play step
    let (answers, last) := s.playAll rest
    ((answer, s.depths) :: answers, last)

/-! ## The end of a scenario -/

def recordings (s : Session) : List (String × Recording) :=
  s.recorders.toList.map fun (name, tag) => (name, { tag, events := s.eventsOf tag })

def notes (s : Session) : List (String × List Note) :=
  s.servers.toList.filterMap fun (name, tag) =>
    match s.network.consumers.get? tag with
    | some { role := .server server, .. } => some (name, server.notes.toList)
    | _ => none

def requests (s : Session) : List (String × List Request) :=
  s.sinks.toList.map fun (name, sink) => (name, s.requestsOf sink)

def clientStates (s : Session) : List (String × ClientState) :=
  s.clients.keys.filterMap fun name => (s.client? name).map fun c => (name, .of c)

/-- The results of the calls that nobody has joined, once the connection is
lost. -/
def unjoined (s : Session) : List (String × Option (Except CallError Bytes)) :=
  let (_, s) := s.operate (.abortConnection "scenario over")
  s.unjoinedCalls.keys.map fun name => (name, (s.join name).1)

def final (s : Session) : Final where
  queues := s.depths
  recordings := s.recordings
  notes := s.notes
  requests := s.requests
  clients := s.clientStates
  unjoined := s.unjoined

end Session

/-- Plays a scenario on a fresh network. -/
def report (steps : List Step) : Report :=
  let (answers, s) := ({} : Session).playAll steps
  { steps := answers, final := s.final }

end BrokeredRpc.Scenario
