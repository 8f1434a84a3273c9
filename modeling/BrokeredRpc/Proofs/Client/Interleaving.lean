import BrokeredRpc.Proofs.Client.History

/-!
# Clients under any interleaving

A client's callers, the operation that holds its lock and the listener on its
reply subscription all run at once. What is indivisible is one critical section:
the registration of a call, the take of an entry, the seal, the drain, one write
or one look at a slot. A `System` is a client with everything that is under way
on it, and `step` makes one such step of whoever is told to go on; a step that
is not possible changes nothing. What the transport answers and which events
arrive is up to the labels, so a statement about all lists of labels is about
every transport and every order.

The open gate, the next id and the registration are one step here: whoever
passes the gate keeps the lock until its request is answered, and the listener
touches neither the lifecycle nor the last id.

`history` lists what has happened, oldest first. It decides nothing.

* `step_moves`: what one step can do, once and for all;
* `eventMarks_run`: events leave the marks of what the listener takes (`heard`), in that order;
* `run_event`: an event and the listener's steps after it, with nothing in
  between, are `Client.receive`;
* `run_look`: two looks in a row are `Client.look`.
-/
namespace BrokeredRpc.Client

/-! ## States -/

/-- What the listener is at. -/
inductive Listener
  | idle
  /-- The reply of this number has taken a slot and is about to fill it. -/
  | answering (number : Nat) (slot : String) (outcome : Outcome)
  /-- The registry is sealed and about to be drained. -/
  | draining (cause : Shutdown)
  /-- The slots are drained and about to be filled. -/
  | failing (slots : List String) (cause : Shutdown)
  deriving DecidableEq

/-- The slots that the listener is about to fill. -/
def Listener.held : Listener → List String
  | .idle | .draining _ => []
  | .answering _ slot _ => [slot]
  | .failing slots _ => slots

def Listener.isAnswering : Listener → Bool
  | .answering .. => true
  | .idle | .draining _ | .failing .. => false

/-- How far a call has come. -/
inductive Call
  | publishing
  | waiting (since : Nat)
  /-- The wait is over and the call is about to withdraw. -/
  | withdrawing (waited : Duration)
  /-- Somebody else has taken the slot and will fill it. -/
  | resolving
  | returned (result : Except CallError Bytes)

structure System where
  client : Client := {}
  now : Nat := 0
  /-- The operation that holds the client's lock. -/
  stage : Option Stage := none
  listener : Listener := .idle
  calls : Table Call := ∅
  history : List Mark := []

inductive Label
  | start (op : Operation)
  /-- The transport answers the operation under way. -/
  | answer (answer : Except TransportError String)
  | event (tag : String) (event : Event)
  | listen
  | look (id : String)
  | tick (nanos : Nat)

/-- What a stage takes of a name that the transport assigns. -/
def Stage.grant : (stage : Stage) → String → stage.Grant
  | .declaring, name | .subscribing _, name => name
  | .discarding .., _ | .cancelling .., _ | .publishing .., _ => ()

namespace System

def fresh (timeout : Timeout) : System := { client := { timeout } }

/-! ## Steps -/

def withReplies (s : System) (replies : Replies) : System :=
  { s with client := { s.client with replies } }

/-- An operation begins, once the lock is free. -/
def start (s : System) (op : Operation) : System :=
  match s.stage with
  | some _ => s
  | none =>
    match s.client.start op with
    | (client, .asking (.publishing id m)) =>
      { s with
        client
        stage := some (.publishing id m)
        calls := s.calls.insert id .publishing
        history := s.history ++ [.registered id] }
    | (client, .asking stage) => { s with client, stage := some stage }
    | (client, .failed e) =>
      -- A call that has taken an id returns under it.
      if client.lastId = s.client.lastId then { s with client }
      else { s with client, calls := s.calls.insert (idOf client.lastId) (.returned (.error e)) }
    | (client, .done) | (client, .waiting _) => { s with client }

/-- The operation under way gets an answer. -/
def answer (s : System) (a : Except TransportError String) : System :=
  match s.stage with
  | none => s
  | some (.publishing id m) =>
    match s.client.resume (.publishing id m) (a.map (Stage.grant (.publishing id m))) with
    | (client, .failed e) =>
      { s with
        client
        stage := none
        calls := s.calls.insert id (.returned (.error e))
        history := s.history ++ [.unpublished id e] }
    | (client, _) => { s with client, stage := none, calls := s.calls.insert id (.waiting s.now) }
  | some stage =>
    match s.client.resume stage (a.map stage.grant) with
    | (client, .asking next) => { s with client, stage := some next }
    | (client, _) => { s with client, stage := none }

/-- A reply arrives: whoever waits for it loses its entry in the registry. -/
def reply (s : System) (properties : Properties) (body : Bytes) : System :=
  let arrived := { s with history := s.history ++ [.replied properties body] }
  match properties.correlationId with
  | none => arrived
  | some id =>
    match s.client.replies.take id with
    | (some slot, replies) =>
      { arrived.withReplies replies with
        listener :=
          .answering (repliesIn s.history).length slot (.ofReply properties body) }
    | (none, replies) => arrived.withReplies replies

/-- The subscription has ended: the registry is sealed. -/
def sealWith (s : System) (cause : Shutdown) : System :=
  { s.withReplies
      { s.client.replies with registry := s.client.replies.registry.sealWith cause } with
    listener := .draining cause
    history := s.history ++ [.sealed cause] }

/-- An event arrives, if the listener is done with the one before. -/
def receive (s : System) (tag : String) (event : Event) : System :=
  match s.listener with
  | .idle =>
    match event with
    | .delivery d => s.reply d.properties d.body
    | .shutdown cause => s.sealWith cause
    | .cancelled => s.sealWith (.consumerCancelled tag)
  | _ => s

def fill (s : System) (slot : String) (outcome : Outcome) (reply : Option Nat) : System :=
  { s.withReplies (s.client.replies.fill slot outcome).2 with
    history := s.history ++ [.filled slot outcome reply] }

/-- The listener goes on with its event. -/
def listen (s : System) : System :=
  match s.listener with
  | .idle => s
  | .answering number slot outcome =>
    { s.fill slot outcome (some number) with listener := .idle }
  | .draining cause =>
    let (slots, registry) := s.client.replies.registry.drain
    { s.withReplies { s.client.replies with registry } with
      listener := .failing slots cause
      history := s.history ++ [.drained slots cause] }
  | .failing (slot :: rest) cause =>
    { s.fill slot (.shutdown cause) none with listener := .failing rest cause }
  | .failing [] cause => { s with listener := .idle, history := s.history ++ [.ended cause] }

/-- A call goes on with its wait. -/
def look (s : System) (id : String) : System :=
  match s.calls.get? id with
  | some (.waiting since) =>
    match (s.client.replies.slot id).look s.client.timeout since s.now with
    | none => s
    | some (.ok outcome) => { s with calls := s.calls.insert id (.returned outcome.toResult) }
    | some (.error expired) => { s with calls := s.calls.insert id (.withdrawing expired.waited) }
  | some (.withdrawing waited) =>
    match s.client.replies.take id with
    | (some _, replies) =>
      { s.withReplies replies with
        calls := s.calls.insert id (.returned (.error (.timeout id waited)))
        history := s.history ++ [.timedOut id] }
    | (none, replies) => { s.withReplies replies with calls := s.calls.insert id .resolving }
  | some .resolving =>
    match (s.client.replies.slot id).tryGet with
    | none => s
    | some outcome => { s with calls := s.calls.insert id (.returned outcome.toResult) }
  | _ => s

def step (s : System) : Label → System
  | .start op => s.start op
  | .answer a => s.answer a
  | .event tag event => s.receive tag event
  | .listen => s.listen
  | .look id => s.look id
  | .tick nanos => { s with now := s.now + nanos }

def run (s : System) (labels : List Label) : System := labels.foldl step s

/-- The mark of an event, if the listener takes it. -/
def hears (s : System) : Label → List Mark
  | .event tag event => if s.listener = .idle then [event.mark tag] else []
  | .start _ | .answer _ | .listen | .look _ | .tick _ => []

/-- The marks of the events that the listener takes in a run. -/
def heard (s : System) : List Label → List Mark
  | [] => []
  | label :: rest => s.hears label ++ (s.step label).heard rest

/-! ## What a step does -/

/-- The id that the next call gets. -/
def nextId (s : System) : String := idOf (s.client.lastId + 1)

/-- The slot registered under an id. -/
def pending? (s : System) (id : String) : Option String :=
  s.client.replies.registry.pending.get? id

/-- What a slot holds. -/
def value? (s : System) (slot : String) : Option Outcome := (s.client.replies.slot slot).value

/-- The cause that sealed the registry. -/
def sealedBy? (s : System) : Option Shutdown := s.client.replies.registry.sealedBy

/-- The next call takes its id and enters its slot, which may be refused. -/
def enroll (s : System) : System :=
  { s with
    client :=
      { s.client with
        lastId := s.client.lastId + 1
        replies := (s.client.replies.register s.nextId s.nextId).2 } }

/-- The ways in which a step changes a system. -/
inductive Moves (s : System) : System → Prop
  | stayed : Moves s s
  | ticked (nanos : Nat) : Moves s { s with now := s.now + nanos }
  | staged {client : Client} {stage : Option Stage} (hr : client.replies = s.client.replies)
      (hi : client.lastId = s.client.lastId) (ht : client.timeout = s.client.timeout)
      (hp : ∀ id m, stage ≠ some (.publishing id m)) :
      Moves s { s with client, stage }
  | registered {m : Message} (hs : s.stage = none) (hu : s.sealedBy? = none) :
      Moves s
        { s.enroll with
          stage := some (.publishing s.nextId m)
          calls := s.calls.insert s.nextId .publishing
          history := s.history ++ [.registered s.nextId] }
  | refused {cause : Shutdown} (hs : s.stage = none) (hc : s.sealedBy? = some cause) :
      Moves s
        { s.enroll with
          calls := s.calls.insert s.nextId (.returned (.error (.transportShutdown cause))) }
  | published {id : String} {m : Message} (hs : s.stage = some (.publishing id m)) :
      Moves s { s with stage := none, calls := s.calls.insert id (.waiting s.now) }
  | unpublished {id : String} {m : Message} {e : CallError}
      (hs : s.stage = some (.publishing id m)) (he : e.payload? = none) :
      Moves s
        { s.withReplies (s.client.replies.take id).2 with
          stage := none
          calls := s.calls.insert id (.returned (.error e))
          history := s.history ++ [.unpublished id e] }
  | matched {properties : Properties} {body : Bytes} {id slot : String} (hl : s.listener = .idle)
      (hc : properties.correlationId = some id) (hp : s.pending? id = some slot) :
      Moves s
        { s.withReplies (s.client.replies.take id).2 with
          listener := .answering (repliesIn s.history).length slot (.ofReply properties body)
          history := s.history ++ [.replied properties body] }
  | dropped {properties : Properties} {body : Bytes} (hl : s.listener = .idle)
      (hp : ∀ id, properties.correlationId = some id → s.pending? id = none) :
      Moves s { s with history := s.history ++ [.replied properties body] }
  | sealed {cause : Shutdown} (hl : s.listener = .idle) : Moves s (s.sealWith cause)
  | drained {cause : Shutdown} (hl : s.listener = .draining cause) :
      Moves s
        { s.withReplies
            { s.client.replies with registry := s.client.replies.registry.drain.2 } with
          listener := .failing s.client.replies.registry.drain.1 cause
          history := s.history ++ [.drained s.client.replies.registry.drain.1 cause] }
  | answered {number : Nat} {slot : String} {outcome : Outcome}
      (hl : s.listener = .answering number slot outcome) :
      Moves s { s.fill slot outcome (some number) with listener := .idle }
  | failed {slot : String} {rest : List String} {cause : Shutdown}
      (hl : s.listener = .failing (slot :: rest) cause) :
      Moves s { s.fill slot (.shutdown cause) none with listener := .failing rest cause }
  | ended {cause : Shutdown} (hl : s.listener = .failing [] cause) :
      Moves s { s with listener := .idle, history := s.history ++ [.ended cause] }
  | resolved {id : String} {outcome : Outcome} (hv : s.value? id = some outcome)
      (hc : (∃ since, s.calls.get? id = some (.waiting since)) ∨
        s.calls.get? id = some .resolving) :
      Moves s { s with calls := s.calls.insert id (.returned outcome.toResult) }
  | expired {id : String} {since : Nat} {waited : Duration}
      (hc : s.calls.get? id = some (.waiting since)) (hv : s.value? id = none) :
      Moves s { s with calls := s.calls.insert id (.withdrawing waited) }
  | withdrawn {id slot : String} {waited : Duration}
      (hc : s.calls.get? id = some (.withdrawing waited)) (hp : s.pending? id = some slot) :
      Moves s
        { s.withReplies (s.client.replies.take id).2 with
          calls := s.calls.insert id (.returned (.error (.timeout id waited)))
          history := s.history ++ [.timedOut id] }
  | outrun {id : String} {waited : Duration}
      (hc : s.calls.get? id = some (.withdrawing waited)) (hp : s.pending? id = none) :
      Moves s { s with calls := s.calls.insert id .resolving }

/-- An operation begins without a call, or it registers one, or the registry refuses it. -/
theorem start_cases (s : System) (op : Operation) :
    (∃ progress, s.client.start op = (s.client, progress) ∧
        (∀ id m, progress ≠ .asking (.publishing id m)) ∧
        (s.client.isOpen = true → ∀ m, op ≠ .calling m)) ∨
      (∃ m, s.sealedBy? = none ∧
        s.client.start op = (s.enroll.client, .asking (.publishing s.nextId m))) ∨
      ∃ cause, s.sealedBy? = some cause ∧
        s.client.start op = (s.enroll.client, .failed (.transportShutdown cause)) := by
  cases op with
  | opening =>
    refine Or.inl ?_
    simp only [Client.start, startOpen]
    split <;> exact ⟨_, rfl, (fun _ _ h => by cases h), fun _ _ h => by cases h⟩
  | closing =>
    refine Or.inl ?_
    simp only [Client.start, startClose]
    split <;> exact ⟨_, rfl, (fun _ _ h => by cases h), fun _ _ h => by cases h⟩
  | calling m =>
    simp only [Client.start, startCall]
    split
    · next hl =>
      refine Or.inl ⟨_, rfl, (fun _ _ h => by cases h), fun ho => ?_⟩
      rw [isOpen, hl] at ho; cases ho
    · next hl =>
      refine Or.inl ⟨_, rfl, (fun _ _ h => by cases h), fun ho => ?_⟩
      rw [isOpen, hl] at ho; cases ho
    · next queue tag ho =>
      cases hreg : s.client.replies.register (idOf (s.client.lastId + 1))
        (idOf (s.client.lastId + 1)) with
      | mk result replies =>
      have ha : s.enroll.client = { s.client with lastId := s.client.lastId + 1, replies } := by
        rw [enroll, nextId, hreg]
      rw [ha]
      cases hc : s.sealedBy? with
      | none =>
        have hr := (Replies.register_of_unsealed hc (idOf (s.client.lastId + 1))
          (idOf (s.client.lastId + 1))).1
        rw [hreg] at hr
        cases hr
        exact Or.inr (Or.inl ⟨_, rfl, rfl⟩)
      | some cause =>
        have hr := (Replies.register_of_sealed hc (idOf (s.client.lastId + 1))
          (idOf (s.client.lastId + 1))).1
        rw [hreg] at hr
        cases hr
        exact Or.inr (Or.inr ⟨cause, rfl, rfl⟩)

theorem start_moves (s : System) (op : Operation) : Moves s (s.start op) := by
  unfold start
  split
  · exact .stayed
  next hs =>
  rcases start_cases s op with ⟨progress, h, hp, -⟩ | ⟨m, hu, h⟩ | ⟨cause, hc, h⟩ <;> rw [h]
  · cases progress with
    | asking stage =>
      cases stage
      case publishing id m => exact absurd rfl (hp id m)
      all_goals exact .staged rfl rfl rfl fun _ _ h => by cases h
    | done => exact .stayed
    | failed e =>
      dsimp only
      rw [if_pos rfl]
      exact .stayed
    | waiting id => exact .stayed
  · exact .registered hs hu
  · have hne : s.enroll.client.lastId ≠ s.client.lastId := Nat.succ_ne_self _
    dsimp only
    rw [if_neg hne]
    exact .refused hs hc

theorem answer_moves (s : System) (a : Except TransportError String) : Moves s (s.answer a) := by
  unfold answer
  split
  · exact .stayed
  · next id m hs =>
    cases a with
    | ok name => exact .published hs
    | error e => cases e <;> exact .unpublished hs rfl
  · next stage hp hs =>
    cases stage with
    | publishing id m => exact absurd rfl (hp id m)
    | declaring => cases a <;> exact .staged rfl rfl rfl fun _ _ h => by cases h
    | subscribing queue => cases a <;> exact .staged rfl rfl rfl fun _ _ h => by cases h
    | discarding queue failure => exact .staged rfl rfl rfl fun _ _ h => by cases h
    | cancelling queue tag =>
      cases a with
      | ok name => exact .staged rfl rfl rfl fun _ _ h => by cases h
      | error e => cases e <;> exact .staged rfl rfl rfl fun _ _ h => by cases h

theorem reply_moves {s : System} (hl : s.listener = .idle) (properties : Properties)
    (body : Bytes) : Moves s (s.reply properties body) := by
  unfold reply
  split
  · next hc => exact .dropped hl fun id h => by rw [hc] at h; cases h
  · next id hc =>
    cases hp : s.pending? id with
    | none =>
      rw [Replies.take_of_absent hp]
      exact .dropped hl fun id' h => by rw [hc] at h; cases h; exact hp
    | some slot =>
      have ht : s.client.replies.take id = (some slot, (s.client.replies.take id).2) :=
        Prod.ext hp rfl
      rw [ht]
      exact .matched hl hc hp

theorem listen_moves (s : System) : Moves s s.listen := by
  unfold listen
  split
  · exact .stayed
  · next hl => exact .answered hl
  · next hl => exact .drained hl
  · next hl => exact .failed hl
  · next hl => exact .ended hl

theorem look_moves (s : System) (id : String) : Moves s (s.look id) := by
  unfold look
  split
  · next since hc =>
    cases hv : s.value? id with
    | none =>
      rcases Slot.look_of_empty hv s.client.timeout since s.now with h | ⟨duration, -, -, h⟩ <;>
        rw [h]
      · exact .stayed
      · exact .expired hc hv
    | some outcome =>
      rw [Slot.look_of_set hv]
      exact .resolved hv (Or.inl ⟨since, hc⟩)
  · next waited hc =>
    cases hp : s.pending? id with
    | none =>
      rw [Replies.take_of_absent hp]
      exact .outrun hc hp
    | some slot =>
      have ht : s.client.replies.take id = (some slot, (s.client.replies.take id).2) :=
        Prod.ext hp rfl
      rw [ht]
      exact .withdrawn hc hp
  · next hc =>
    split
    · exact .stayed
    · next outcome hv => exact .resolved hv (Or.inr hc)
  · exact .stayed

/-- **One step.** Whatever the label, a step does one of the things that `Moves` lists. -/
theorem step_moves (s : System) (label : Label) : Moves s (s.step label) := by
  cases label with
  | start op => exact start_moves s op
  | answer a => exact answer_moves s a
  | event tag event =>
    simp only [step, receive]
    split
    · next hl =>
      split
      · exact reply_moves hl _ _
      · exact .sealed hl
      · exact .sealed hl
    · exact .stayed
  | listen => exact listen_moves s
  | look id => exact look_moves s id
  | tick nanos => exact .ticked nanos

/-! ## Steps in a row -/

theorem run_cons (s : System) (label : Label) (rest : List Label) :
    s.run (label :: rest) = (s.step label).run rest := rfl

theorem run_append (s : System) (labels more : List Label) :
    s.run (labels ++ more) = (s.run labels).run more := List.foldl_append

theorem run_induct {P : System → Prop} (hstep : ∀ s s', Moves s s' → P s → P s') :
    ∀ (labels : List Label) (s : System), P s → P (s.run labels)
  | [], _, h => h
  | label :: rest, s, h =>
    run_induct hstep rest (s.step label) (hstep s _ (step_moves s label) h)

theorem run_failing {slots : List String} {cause : Shutdown} :
    ∀ {s : System}, s.listener = .failing slots cause →
      (s.run (.replicate (slots.length + 1) .listen)).listener = .idle ∧
        (s.run (.replicate (slots.length + 1) .listen)).client =
          { s.client with replies := s.client.replies.fillAll slots (.shutdown cause) } ∧
        (s.run (.replicate (slots.length + 1) .listen)).calls = s.calls := by
  induction slots with
  | nil =>
    intro s hl
    have hs : s.listen = { s with listener := .idle, history := s.history ++ [.ended cause] } := by
      rw [listen, hl]
    rw [List.length_nil, List.replicate_succ, run_cons, step, hs]
    exact ⟨rfl, rfl, rfl⟩
  | cons slot rest ih =>
    intro s hl
    have hs : s.listen =
        { s.fill slot (.shutdown cause) none with listener := .failing rest cause } := by
      rw [listen, hl]
    rw [List.length_cons, List.replicate_succ, run_cons, step, hs]
    exact ih rfl

/-- **Events.** An event and the listener's steps after it, with nothing in between, are what
`Client.receive` does at once. -/
theorem run_event {s : System} (hl : s.listener = .idle) (tag : String) (event : Event) :
    ∃ n, (s.run (.event tag event :: .replicate n .listen)).listener = .idle ∧
      (s.run (.event tag event :: .replicate n .listen)).client = s.client.receive tag event ∧
      (s.run (.event tag event :: .replicate n .listen)).calls = s.calls := by
  have hend : ∀ cause, ∃ n, ((s.sealWith cause).run (.replicate n .listen)).listener = .idle ∧
      ((s.sealWith cause).run (.replicate n .listen)).client =
        { s.client with replies := s.client.replies.endWith cause } ∧
      ((s.sealWith cause).run (.replicate n .listen)).calls = s.calls := by
    intro cause
    refine ⟨s.client.replies.registry.drain.1.length + 1 + 1, ?_⟩
    rw [List.replicate_succ, run_cons]
    exact run_failing (s := (s.sealWith cause).step .listen) rfl
  cases event with
  | shutdown cause =>
    obtain ⟨n, h⟩ := hend cause
    refine ⟨n, ?_⟩
    rw [run_cons, step, receive, hl]
    exact h
  | cancelled =>
    obtain ⟨n, h⟩ := hend (.consumerCancelled tag)
    refine ⟨n, ?_⟩
    rw [run_cons, step, receive, hl]
    exact h
  | delivery d =>
    have hr : s.step (.event tag (.delivery d)) = s.reply d.properties d.body := by
      rw [step, receive, hl]
    cases hc : d.properties.correlationId with
    | none =>
      refine ⟨0, ?_⟩
      rw [run_cons, hr]
      simp only [List.replicate_zero, run, List.foldl_nil, reply, hc, hl, Client.receive,
        Replies.handle, Replies.deliver]
      exact ⟨trivial, trivial, trivial⟩
    | some id =>
      cases ht : s.client.replies.take id with
      | mk name replies =>
      cases name with
      | none =>
        refine ⟨0, ?_⟩
        rw [run_cons, hr]
        simp only [List.replicate_zero, run, List.foldl_nil, reply, hc, ht, hl, withReplies,
          Client.receive, Replies.handle, Replies.deliver]
        exact ⟨trivial, trivial, trivial⟩
      | some slot =>
        refine ⟨1, ?_⟩
        rw [run_cons, hr]
        simp only [List.replicate_one, run, List.foldl_cons, List.foldl_nil, step, reply, listen,
          hc, ht, fill, withReplies, Client.receive, Replies.handle, Replies.deliver]
        exact ⟨trivial, trivial, trivial⟩

/-- **Looks.** Two looks of a waiting call in a row are what `Client.look` does at once. -/
theorem run_look {s : System} {id : String} {since : Nat}
    (hc : s.calls.get? id = some (.waiting since)) :
    (s.run [.look id, .look id]).client = (s.client.look id since s.now).2 ∧
      ∀ result, (s.client.look id since s.now).1 = some result →
        (s.run [.look id, .look id]).calls.get? id = some (.returned result) := by
  show ((s.look id).look id).client = _ ∧ ∀ result, _ → ((s.look id).look id).calls.get? id = _
  cases hv : (s.client.replies.slot id).look s.client.timeout since s.now with
  | none =>
    have hs : s.look id = s := by simp only [look, hc, hv]
    rw [hs, hs]
    simp only [Client.look, hv]
    exact ⟨trivial, fun _ h => by cases h⟩
  | some found =>
    cases found with
    | ok outcome =>
      simp only [look, hc, hv, Table.get?_insert_self, Client.look]
      exact ⟨trivial, fun result h => by rw [Option.some.inj h]⟩
    | error expired =>
      cases ht : s.client.replies.take id with
      | mk name replies =>
      cases name with
      | none =>
        simp only [look, hc, hv, ht, Table.get?_insert_self, withReplies, Client.look]
        exact ⟨trivial, fun _ h => by cases h⟩
      | some slot =>
        simp only [look, hc, hv, ht, Table.get?_insert_self, withReplies, Client.look]
        exact ⟨trivial, fun result h => by rw [Option.some.inj h]⟩

/-! ## What events leave -/

/-- A reply that the listener takes is the next mark, whoever it is for. -/
theorem history_reply (s : System) (properties : Properties) (body : Bytes) :
    (s.reply properties body).history = s.history ++ [.replied properties body] := by
  unfold reply
  split
  · rfl
  · split <;> rfl

theorem history_receive {s : System} (hl : s.listener = .idle) (tag : String) (event : Event) :
    (s.receive tag event).history = s.history ++ [event.mark tag] := by
  simp only [receive, hl]
  cases event with
  | delivery d => exact history_reply s d.properties d.body
  | shutdown => rfl
  | cancelled => rfl

theorem eventMarks_receive {s : System} (hl : s.listener = .idle) (tag : String) (event : Event) :
    eventMarks (s.receive tag event).history = eventMarks s.history ++ [event.mark tag] := by
  have hm : (event.mark tag).ofEvent = true := by cases event <;> rfl
  simp [history_receive hl, eventMarks, List.filter_append, hm]

theorem eventMarks_start (s : System) (op : Operation) :
    eventMarks (s.start op).history = eventMarks s.history := by
  unfold start
  split
  · rfl
  · split
    · exact eventMarks_append_mark rfl
    · rfl
    · split <;> rfl
    · rfl
    · rfl

theorem eventMarks_answer (s : System) (a : Except TransportError String) :
    eventMarks (s.answer a).history = eventMarks s.history := by
  unfold answer
  split
  · rfl
  · split
    · exact eventMarks_append_mark rfl
    · rfl
  · split <;> rfl

theorem eventMarks_listen (s : System) : eventMarks s.listen.history = eventMarks s.history := by
  unfold listen
  split
  · rfl
  all_goals exact eventMarks_append_mark rfl

theorem eventMarks_look (s : System) (id : String) :
    eventMarks (s.look id).history = eventMarks s.history := by
  unfold look
  split
  · split <;> rfl
  · split
    · exact eventMarks_append_mark rfl
    · rfl
  · split <;> rfl
  · rfl

theorem eventMarks_step (s : System) (label : Label) :
    eventMarks (s.step label).history = eventMarks s.history ++ s.hears label := by
  cases label with
  | event tag event =>
    by_cases hl : s.listener = .idle
    · rw [hears, if_pos hl]
      exact eventMarks_receive hl tag event
    · rw [hears, if_neg hl, List.append_nil, step]
      unfold receive
      split
      · next h => exact absurd h hl
      · rfl
  | start op => rw [hears, List.append_nil]; exact s.eventMarks_start op
  | answer a => rw [hears, List.append_nil]; exact s.eventMarks_answer a
  | listen => rw [hears, List.append_nil]; exact s.eventMarks_listen
  | look id => rw [hears, List.append_nil]; exact s.eventMarks_look id
  | tick nanos => rw [hears, List.append_nil]; rfl

theorem eventMarks_run (s : System) (labels : List Label) :
    eventMarks (s.run labels).history = eventMarks s.history ++ s.heard labels := by
  induction labels generalizing s with
  | nil => exact (List.append_nil _).symm
  | cons label rest ih => rw [run_cons, ih, eventMarks_step, heard, List.append_assoc]

end System

end BrokeredRpc.Client
