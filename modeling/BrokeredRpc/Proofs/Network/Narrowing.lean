import BrokeredRpc.Proofs.Client.Waiting
import BrokeredRpc.Proofs.Network.Histories

/-!
# Which method of a handler answers

A handler defines some of its seven methods, in two chains. Whichever method a
request enters at, the first defined one from there on is the only one that runs,
and what it leaves is what the request is left with.

To tell which methods run, and on what, a handler can be watched
(`Handler.watched`): each method does what it did, and notes only that it ran and
what it saw. A watched request has one note if some method of its chain is
defined, and otherwise none.

* `enter_eq`, `enter_watched`: the above, for every handler, request and entry;
* `handle_narrows`: a server takes a request with an address for the reply down
  the chain of calls and any other down that of casts, and publishes one reply if
  the request has the address and an id.
-/
namespace BrokeredRpc

/-! ## Chains -/

namespace Level

/-- The next method down the chain. -/
def below? : Level → Option Level
  | call => some callProps
  | callProps => some callReply
  | callReply => some callParm
  | cast => some castProps
  | castProps => some castParm
  | callParm | castParm => none

/-- The methods from one on, down its chain. -/
def onward : Level → List Level
  | call => [call, callProps, callReply, callParm]
  | callProps => [callProps, callReply, callParm]
  | callReply => [callReply, callParm]
  | callParm => [callParm]
  | cast => [cast, castProps, castParm]
  | castProps => [castProps, castParm]
  | castParm => [castParm]

/-- How a request is called that no method of the chain is there for. -/
def kind : Level → String
  | call | callProps | callReply | callParm => "call"
  | cast | castProps | castParm => "cast"

theorem onward_eq (level : Level) :
    level.onward = level :: (level.below?.map onward).getD [] := by
  cases level <;> rfl

theorem length_onward_lt {level next : Level} (h : level.below? = some next) :
    next.onward.length < level.onward.length := by
  cases level <;> cases h <;> decide

theorem kind_of_below {level next : Level} (h : level.below? = some next) :
    next.kind = level.kind := by
  cases level <;> cases h <;> rfl

end Level

/-- A request with all its context, and the properties that its reply has so far. -/
structure Asked where
  envelope : Envelope
  request : Properties
  parm : Bytes
  reply : Properties := {}

/-- What a request is left with, be it a call or a cast; the answer to a cast has no value. -/
structure Treated where
  answer : Except HandlerError (Option Bytes)
  notes : List Note
  reply : Properties

namespace Asked

/-- What the method of a level sees of a request. -/
def seenBy (r : Asked) : Level → Note
  | .call =>
    { level := .call, parm := r.parm, envelope := some r.envelope, request := some r.request,
      reply := some r.reply }
  | .callProps =>
    { level := .callProps, parm := r.parm, request := some r.request, reply := some r.reply }
  | .callReply => { level := .callReply, parm := r.parm, reply := some r.reply }
  | .callParm => { level := .callParm, parm := r.parm }
  | .cast =>
    { level := .cast, parm := r.parm, envelope := some r.envelope, request := some r.request }
  | .castProps => { level := .castProps, parm := r.parm, request := some r.request }
  | .castParm => { level := .castParm, parm := r.parm }

/-- What a call leaves of a request. -/
def called (left : CallHandled) : Treated where
  answer := left.answer.map some
  notes := left.notes
  reply := left.reply

/-- What a call that does not see the properties of the reply leaves. -/
def calledBlind (r : Asked) (left : Handled Bytes) : Treated where
  answer := left.answer.map some
  notes := left.notes
  reply := r.reply

/-- What a cast leaves of a request. -/
def cast (r : Asked) (left : Handled Unit) : Treated where
  answer := left.answer.map fun _ => none
  notes := left.notes
  reply := r.reply

/-- A request that no method is there for. -/
def unsupported (r : Asked) (entry : Level) : Treated where
  answer := .error (.unsupported entry.kind)
  notes := []
  reply := r.reply

end Asked

namespace Handler

/-- Whether the handler defines a method of its own. -/
def defines (h : Handler) : Level → Bool
  | .call => h.call.isSome
  | .callProps => h.callProps.isSome
  | .callReply => h.callReply.isSome
  | .callParm => h.callParm.isSome
  | .cast => h.cast.isSome
  | .castProps => h.castProps.isSome
  | .castParm => h.castParm.isSome

/-- What the method of a level by itself makes of a request, if it is defined. -/
def body? (h : Handler) (r : Asked) : Level → Option Treated
  | .call => h.call.map fun method => Asked.called (method r.envelope r.request r.parm r.reply)
  | .callProps => h.callProps.map fun method => Asked.called (method r.request r.parm r.reply)
  | .callReply => h.callReply.map fun method => Asked.called (method r.parm r.reply)
  | .callParm => h.callParm.map fun method => r.calledBlind (method r.parm)
  | .cast => h.cast.map fun method => r.cast (method r.envelope r.request r.parm)
  | .castProps => h.castProps.map fun method => r.cast (method r.request r.parm)
  | .castParm => h.castParm.map fun method => r.cast (method r.parm)

/-- The request enters at the method of a level. -/
def enter (h : Handler) (r : Asked) : Level → Treated
  | .call => Asked.called (h.handleCall r.envelope r.request r.parm r.reply)
  | .callProps => Asked.called (h.handleCallProps r.request r.parm r.reply)
  | .callReply => Asked.called (h.handleCallReply r.parm r.reply)
  | .callParm => r.calledBlind (h.handleCallParm r.parm)
  | .cast => r.cast (h.handleCast r.envelope r.request r.parm)
  | .castProps => r.cast (h.handleCastProps r.request r.parm)
  | .castParm => r.cast (h.handleCastParm r.parm)

/-- The handler, each of whose methods notes only that it ran and what it saw. -/
def watched (h : Handler) : Handler where
  call := h.call.map fun method envelope request parm reply =>
    { method envelope request parm reply with
      notes := [Asked.seenBy ⟨envelope, request, parm, reply⟩ .call] }
  callProps := h.callProps.map fun method request parm reply =>
    { method request parm reply with
      notes := [{ level := .callProps, parm, request := some request, reply := some reply }] }
  callReply := h.callReply.map fun method parm reply =>
    { method parm reply with notes := [{ level := .callReply, parm, reply := some reply }] }
  callParm := h.callParm.map fun method parm =>
    { method parm with notes := [{ level := .callParm, parm }] }
  cast := h.cast.map fun method envelope request parm =>
    { method envelope request parm with
      notes := [{ level := .cast, parm, envelope := some envelope, request := some request }] }
  castProps := h.castProps.map fun method request parm =>
    { method request parm with notes := [{ level := .castProps, parm, request := some request }] }
  castParm := h.castParm.map fun method parm =>
    { method parm with notes := [{ level := .castParm, parm }] }

variable (h : Handler) (r : Asked)

theorem enter_below (level : Level) :
    h.enter r level =
      (h.body? r level).getD ((level.below?.map (h.enter r)).getD (r.unsupported level)) := by
  cases level with
  | call => rw [enter, body?, handleCall]; cases h.call <;> rfl
  | callProps => rw [enter, body?, handleCallProps]; cases h.callProps <;> rfl
  | callReply => rw [enter, body?, handleCallReply]; cases h.callReply <;> rfl
  | callParm => rw [enter, body?, handleCallParm]; cases h.callParm <;> rfl
  | cast => rw [enter, body?, handleCast]; cases h.cast <;> rfl
  | castProps => rw [enter, body?, handleCastProps]; cases h.castProps <;> rfl
  | castParm => rw [enter, body?, handleCastParm]; cases h.castParm <;> rfl

/-- **The first method defined** from the entry on is the one that answers. -/
theorem enter_eq (entry : Level) :
    h.enter r entry = (entry.onward.findSome? (h.body? r)).getD (r.unsupported entry) := by
  rw [enter_below, Level.onward_eq, List.findSome?_cons]
  cases h.body? r entry with
  | some left => rfl
  | none =>
    cases hb : entry.below? with
    | none => rfl
    | some next =>
      have hu : r.unsupported entry = r.unsupported next := by
        rw [Asked.unsupported, Asked.unsupported, Level.kind_of_below hb]
      have := Level.length_onward_lt hb
      rw [hu]
      exact enter_eq next
termination_by entry.onward.length

/-! ## Watching -/

theorem isSome_body? (level : Level) : (h.body? r level).isSome = h.defines level := by
  cases level <;> exact Option.isSome_map

/-- A watched method does what it did, and its one note is what it saw. -/
theorem body?_watched (level : Level) :
    h.watched.body? r level =
      (h.body? r level).map fun left => { left with notes := [r.seenBy level] } := by
  cases level with
  | call => rw [body?, body?, watched]; cases h.call <;> rfl
  | callProps => rw [body?, body?, watched]; cases h.callProps <;> rfl
  | callReply => rw [body?, body?, watched]; cases h.callReply <;> rfl
  | callParm => rw [body?, body?, watched]; cases h.callParm <;> rfl
  | cast => rw [body?, body?, watched]; cases h.cast <;> rfl
  | castProps => rw [body?, body?, watched]; cases h.castProps <;> rfl
  | castParm => rw [body?, body?, watched]; cases h.castParm <;> rfl

/-- **One method runs**, the first defined, on the request as it came; none, if none is defined. -/
theorem enter_watched (entry : Level) :
    h.watched.enter r entry =
      { h.enter r entry with
        notes := ((entry.onward.find? h.defines).map r.seenBy).toList } := by
  rw [enter_eq, enter_eq]
  generalize entry.onward = levels
  induction levels with
  | nil => rfl
  | cons level rest ih =>
    rw [List.findSome?_cons, List.findSome?_cons, List.find?_cons, body?_watched,
      ← isSome_body? h r level]
    cases h.body? r level with
    | some left => rfl
    | none => exact ih

end Handler

/-! ## Servers -/

/-- The header that reports a failed call, by the kind of the failure. -/
def CallHandled.marker? (left : CallHandled) : Option String :=
  match left.answer with
  | .ok _ => none
  | .error (.unsupported _) => some "rpc"
  | .error (.failed _) => some "service"

/-- What a reply carries back. -/
def CallHandled.payload (left : CallHandled) : Bytes :=
  match left.answer with
  | .ok result => result
  | .error (.unsupported what) => .ofText ("no handler implemented for " ++ what)
  | .error (.failed reason) => .ofText reason

/-- The message that answers a call: the properties are those that the handler has left, but for
the request's id and, after a failure, the header that reports it. -/
structure Message.Answers (m : Message) (queue id : String) (left : CallHandled) : Prop where
  exchange : m.exchange = ""
  routingKey : m.routingKey = queue
  fields : ∀ f, m.properties.get f = if f = .correlationId then some id else left.reply.get f
  headers : ∀ k, m.properties.header k =
    if k = "x-rpc-exception" then left.marker?.or (left.reply.header k) else left.reply.header k
  body : m.body = left.payload

namespace Server

theorem get_report (left : CallHandled) (f : Properties.Field) :
    (report left).1.get f = left.reply.get f := by
  obtain ⟨⟨(what | reason) | result, notes⟩, reply⟩ := left
  · exact Properties.get_setHeader reply _ _ f
  · exact Properties.get_setHeader reply _ _ f
  · rfl

theorem header_report (left : CallHandled) (k : String) :
    (report left).1.header k =
      if k = "x-rpc-exception" then left.marker?.or (left.reply.header k)
      else left.reply.header k := by
  obtain ⟨⟨(what | reason) | result, notes⟩, reply⟩ := left
  · exact (reply.header_setHeader _ _ k).trans
      (ite_congr (propext eq_comm) (fun _ => rfl) fun _ => rfl)
  · exact (reply.header_setHeader _ _ k).trans
      (ite_congr (propext eq_comm) (fun _ => rfl) fun _ => rfl)
  · exact (ite_self _).symm

theorem report_snd (left : CallHandled) : (report left).2 = left.payload := by
  obtain ⟨⟨(what | reason) | result, notes⟩, reply⟩ := left <;> rfl

theorem answers_report (left : CallHandled) (queue id : String) :
    Message.Answers
      { routingKey := queue
        properties := (report left).1.set .correlationId id
        body := (report left).2 } queue id left where
  exchange := rfl
  routingKey := rfl
  fields f := by
    rw [Properties.get_set, get_report]
    exact ite_congr (propext eq_comm) (fun _ => rfl) fun _ => rfl
  headers k := (Properties.header_set _ _ _ k).trans (header_report left k)
  body := report_snd left

end Server

namespace Delivery

/-- The delivered request, with nothing yet in the properties of its reply. -/
def asked (d : Delivery) : Asked where
  envelope := d.envelope
  request := d.properties
  parm := d.body

/-- Where a request enters: one with an address for its reply is a call. -/
def entry (d : Delivery) : Level := if d.properties.replyTo.isSome then .call else .cast

end Delivery

namespace Server

variable (s : Server) (d : Delivery)

theorem notes_handle :
    (s.handle d).1 =
      { s with notes := s.notes.append (s.handler.enter d.asked d.entry).notes } := by
  rw [handle, Delivery.entry]
  cases d.properties.replyTo <;> rfl

theorem handle_cast (hq : d.properties.replyTo = none) : (s.handle d).2 = none := by
  rw [handle, hq]

theorem handle_unaddressed (hid : d.properties.correlationId = none) : (s.handle d).2 = none := by
  rw [handle]
  cases hq : d.properties.replyTo with
  | none => rfl
  | some queue =>
    dsimp only
    rw [replyTo?, replyTo, hq, hid]
    rfl

end Server

/-- **Dispatch.** For every handler on a server, every request and every method it enters at, the
first method defined from there on is the one that runs, on the request as it came, and what it
leaves is what the entry returns; if none is defined the request is unsupported. A delivered request
enters at the top of the chain of casts if it has no address for its reply, and then nothing is
published; otherwise it enters at the top of the chain of calls, with empty properties for the
reply, and one reply is published if the request has an id, and none if it has not. Publishing the
reply is all that happens to the broker, and what the broker sends for it is all that is sent. -/
theorem Network.handle_narrows {n : Network} {tag : String} {channel : Nat} {s : Server}
    (hk : n.consumers.get? tag = some { channel, role := .server s }) (d : Delivery) :
    (∀ (r : Asked) (entry : Level),
      s.handler.enter r entry =
          (entry.onward.findSome? (s.handler.body? r)).getD (r.unsupported entry) ∧
        s.handler.watched.enter r entry =
          { s.handler.enter r entry with
            notes := ((entry.onward.find? s.handler.defines).map r.seenBy).toList }) ∧
      ∃ replies,
        n.handle tag (.delivery d) =
            { n with
              consumers := n.consumers.insert tag
                { channel
                  role := .server
                    { s with
                      notes := s.notes.append (s.handler.enter d.asked d.entry).notes } }
            }.publishAll channel replies ∧
          (d.properties.replyTo = none → replies = []) ∧
          (d.properties.correlationId = none → replies = []) ∧
          (replies = [] → (n.handle tag (.delivery d)).broker = n.broker ∧
            (n.handle tag (.delivery d)).transit = n.transit) ∧
          ∀ queue id, d.properties.replyTo = some queue → d.properties.correlationId = some id →
            ∃ m, replies = [m] ∧
              m.Answers queue id (s.handler.handleCall d.envelope d.properties d.body {}) ∧
              (n.handle tag (.delivery d)).broker = (n.broker.publish channel m).broker ∧
              (n.handle tag (.delivery d)).transit =
                n.transit ++ (n.broker.publish channel m).sent := by
  have hn : n.handle tag (.delivery d) =
      { n with
        consumers := n.consumers.insert tag
          { channel
            role := .server
              { s with notes := s.notes.append (s.handler.enter d.asked d.entry).notes } }
      }.publishAll channel (s.handle d).2.toList := by
    rw [(handle_of_role hk rfl (.delivery d)).1, Role.receive, ← s.notes_handle d]
  refine ⟨fun r entry => ⟨s.handler.enter_eq r entry, s.handler.enter_watched r entry⟩,
    (s.handle d).2.toList, hn, fun hq => ?_, fun hid => ?_, fun hr => ?_,
    fun queue id hq hid => ?_⟩
  · rw [s.handle_cast d hq]
    rfl
  · rw [s.handle_unaddressed d hid]
    rfl
  · rw [hn, hr]
    exact ⟨rfl, rfl⟩
  · rw [s.handle_call hq hid] at hn ⊢
    rw [hn]
    exact ⟨_, rfl, Server.answers_report _ queue id, rfl, rfl⟩

/-- A handler with two methods for calls. The wider one refuses, and leaves its name. -/
def Handler.teller : Handler where
  callReply := some fun _ reply =>
    { answer := .error (.failed "insufficient funds"), reply := reply.set .appId "bank" }
  callParm := some fun parm => { answer := .ok parm }

/-- A call with an id and an address for its reply. -/
def Message.withdrawal : Message where
  routingKey := "bank"
  properties := { replyTo := some "amq.gen-1", correlationId := some "7" }
  body := .ofText "100"

/-- A network with that handler on a queue, where the call has been delivered to it, and with a
subscription to the queue for the reply. -/
def Network.bank : Network where
  broker := (Broker.run {} [.openChannel, .openChannel, .declareQueue 1 "bank", .consume 1 "bank",
    .declareExclusive 2, .consume 2 "amq.gen-1", .publish 2 .withdrawal]).1
  consumers := Table.insert ∅ "ctag-1.1" { channel := 1, role := .server { handler := .teller } }

theorem Network.handle_narrows_failed :
    bank.consumers.get? "ctag-1.1" = some { channel := 1, role := .server { handler := .teller } } ∧
      (Handler.teller.watched.enter (Message.withdrawal.deliver 1).asked .call).notes =
        [{ level := .callReply, parm := .ofText "100", reply := some {} }] ∧
      ∃ m, bank.handle "ctag-1.1" (.delivery (Message.withdrawal.deliver 1)) =
          { bank with
            consumers := bank.consumers.insert "ctag-1.1"
              { channel := 1, role := .server { handler := .teller } } }.publishAll 1 [m] ∧
        m.routingKey = "amq.gen-1" ∧ m.body = .ofText "insufficient funds" ∧
        m.properties.get .correlationId = some "7" ∧ m.properties.get .appId = some "bank" ∧
        m.properties.header "x-rpc-exception" = some "service" ∧
        (bank.handle "ctag-1.1" (.delivery (Message.withdrawal.deliver 1))).transit =
          [⟨"ctag-2.2", .delivery (m.deliver 2)⟩] := by
  have hk : bank.consumers.get? "ctag-1.1" =
      some { channel := 1, role := .server { handler := .teller } } := Table.get?_insert_self _ _ _
  obtain ⟨hchain, replies, hn, -, -, -, hreply⟩ := handle_narrows hk (Message.withdrawal.deliver 1)
  obtain ⟨m, rfl, hm, -, hsent⟩ := hreply "amq.gen-1" "7" rfl rfl
  refine ⟨hk, ?_, m, hn, hm.routingKey, hm.body, hm.fields .correlationId, hm.fields .appId,
    hm.headers "x-rpc-exception", ?_⟩
  · rw [(hchain (Message.withdrawal.deliver 1).asked .call).2]
    rfl
  · obtain ⟨exchange, key, properties, body⟩ := m
    obtain rfl : exchange = "" := hm.exchange
    obtain rfl : key = "amq.gen-1" := hm.routingKey
    rw [hsent]
    rfl

end BrokeredRpc
