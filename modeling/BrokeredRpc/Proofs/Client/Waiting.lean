import BrokeredRpc.Proofs.Client.Frames
import BrokeredRpc.Responder

/-!
# A call at both of its ends

A call goes out under an id and an address for its reply, a server hands it to
its handler, and what the handler leaves comes back as a reply. Here are the two
ends by themselves: how a call begins (`start_calling`), how its caller waits
while other replies come in (`Awaits`) until its own is there, and what a server
makes of the request (`Server.handle_call`). The server writes a failure into
the reply's exception header and the caller reads it there;
`toResult_report` says that the two agree, for every way in which a handler can
answer (`CallHandled.result`).
-/
namespace BrokeredRpc

/-! ## What the caller gets back -/

/-- What a caller gets back for what a handler has left: the answer, unless the reply is
marked as the report of a failure, or a failure. -/
def CallHandled.result (h : CallHandled) : Except CallError Bytes :=
  match h.answer with
  | .ok payload =>
    match h.reply.header "x-rpc-exception" with
    | none => .ok payload
    | some header =>
      if header = "rpc" then .error (.remoteCall payload)
      else if header = "service" then .error (.remoteService payload)
      else .error (.unexpectedException header payload)
  | .error (.unsupported what) =>
    .error (.remoteCall (.ofText ("no handler implemented for " ++ what)))
  | .error (.failed reason) => .error (.remoteService (.ofText reason))

@[simp] theorem Properties.header_set (p : Properties) (field : Field) (value key : String) :
    (p.set field value).header key = p.header key := by
  rw [header, header, headers_set]

/-- The caller reads from the reply what the server has written into it. -/
theorem toResult_report (h : CallHandled) (id : String) :
    (Outcome.ofReply ((Server.report h).1.set .correlationId id) (Server.report h).2).toResult =
      h.result := by
  rw [Outcome.ofReply, Properties.header_set, CallHandled.result, Server.report]
  cases h.answer with
  | ok payload =>
    dsimp only [ExceptionKind.headerName]
    cases h.reply.header "x-rpc-exception" with
    | none => rfl
    | some header =>
      dsimp only
      unfold ExceptionKind.ofHeader
      split
      · rfl
      · split <;> rfl
  | error e =>
    cases e with
    | unsupported what =>
      dsimp only
      rw [Properties.header_setHeader, if_pos rfl]
      rfl
    | failed reason =>
      dsimp only
      rw [Properties.header_setHeader, if_pos rfl]
      rfl

/-! ## The server -/

/-- A request that can be answered is handled once and answered to where it came from. -/
theorem Server.handle_call (s : Server) {d : Delivery} {queue id : String}
    (hq : d.properties.replyTo = some queue) (hid : d.properties.correlationId = some id) :
    s.handle d =
      ({ s with notes :=
          s.notes.append (s.handler.handleCall d.envelope d.properties d.body {}).notes },
        some {
          routingKey := queue
          properties := (report (s.handler.handleCall d.envelope d.properties d.body {})).1.set
            .correlationId id
          body := (report (s.handler.handleCall d.envelope d.properties d.body {})).2 }) := by
  rw [handle, hq]
  dsimp only
  rw [replyTo?, replyTo, hq, hid]
  rfl

namespace Client

variable {c : Client} {id : String}

/-! ## The request -/

/-- Exactly the id and the address of the reply are the client's. -/
theorem get_stamp (p : Properties) (id replyQueue : String) (f : Properties.Field) :
    (stamp p id replyQueue).get f =
      if f = .correlationId then some id
      else if f = .replyTo then some replyQueue
      else p.get f := by
  rw [stamp, Properties.get_set, Properties.get_set]
  cases f <;> rfl

@[simp] theorem headers_stamp (p : Properties) (id replyQueue : String) :
    (stamp p id replyQueue).headers = p.headers := by
  rw [stamp, Properties.headers_set, Properties.headers_set]

theorem start_calling {queue tag : String} (hl : c.lifecycle = .opened queue tag)
    (hs : c.replies.registry.sealedBy = none) (m : Message) :
    c.start (.calling m) =
      (c.enrolled, .asking (.publishing (idOf (c.lastId + 1))
        { m with properties := stamp m.properties (idOf (c.lastId + 1)) queue })) := by
  have hok := (Replies.register_of_unsealed hs (idOf (c.lastId + 1)) (idOf (c.lastId + 1))).1
  rw [start, startCall, hl, enrolled]
  dsimp only
  split
  · next he => rw [he] at hok; cases hok
  · next he => rw [he, hl]

/-! ## The wait -/

/-- The client waits for the reply to a call, without a limit. -/
structure Awaits (c : Client) (id : String) : Prop where
  patient : c.timeout = .infinite
  filed : c.replies.registry.pending.get? id = some id
  empty : (c.replies.slot id).value = none
  own : ∀ id' name, c.replies.registry.pending.get? id' = some name → name = id'

theorem Numbered.awaits (h : c.Numbered) (ht : c.timeout = .infinite)
    (hs : c.replies.registry.sealedBy = none) : Awaits c.enrolled (idOf (c.lastId + 1)) where
  patient := ht
  filed := by
    rw [Client.enrolled, (Replies.register_of_unsealed hs _ _).2.2, if_pos rfl]
  empty := by
    rw [Client.enrolled, Replies.value_slot_register]
    exact h.next_free.2
  own id' name hid := (h.enrolled.pending id' name hid).1

theorem Awaits.look (h : c.Awaits id) (since now : Nat) : c.look id since now = (none, c) := by
  rw [Client.look, h.patient, (Slot.look_infinite_eq_none_iff _ since now).2 h.empty]

theorem look_of_filled {outcome : Outcome} (h : (c.replies.slot id).value = some outcome)
    (since now : Nat) : c.look id since now = (some outcome.toResult, c) := by
  rw [Client.look, Slot.look_of_set h]

namespace Awaits

theorem withdraw_other (h : c.Awaits id) {other : String} (hne : other ≠ id) :
    (c.withdraw other).Awaits id := by
  have hpending := Replies.get?_pending_take c.replies other
  refine ⟨h.patient, (hpending id).trans ((if_neg hne).trans h.filed), h.empty, ?_⟩
  intro id' name hn
  have hkept := (hpending id').symm.trans hn
  split at hkept
  · cases hkept
  · exact h.own id' name hkept

theorem fill_other (h : c.Awaits id) {name : String} (hne : name ≠ id) (outcome : Outcome) :
    Awaits { c with replies := (c.replies.fill name outcome).2 } id :=
  ⟨h.patient, h.filed, (Replies.value_slot_fill ..).trans ((if_neg hne).trans h.empty), h.own⟩

theorem receive_other (h : c.Awaits id) (tag : String) {d : Delivery}
    (hne : d.properties.correlationId ≠ some id) : (c.receive tag (.delivery d)).Awaits id := by
  rw [receive, Replies.handle]
  unfold Replies.deliver
  split
  · exact h
  · next other hother =>
    have hother : other ≠ id := fun he => hne (he ▸ hother)
    have hw := h.withdraw_other hother
    have htake : (c.replies.take other).1 = c.replies.registry.pending.get? other := rfl
    rw [Client.withdraw] at hw
    split
    · next name r he =>
      rw [he] at hw htake
      obtain rfl := h.own other name htake.symm
      exact hw.fill_other hother _
    · next r he => rw [he] at hw; exact hw

theorem receive_own (h : c.Awaits id) (tag : String) {d : Delivery}
    (hid : d.properties.correlationId = some id) :
    ((c.receive tag (.delivery d)).replies.slot id).value =
      some (.ofReply d.properties d.body) := by
  have htake : (c.replies.take id).1 = some id := h.filed
  rw [receive, Replies.handle, Replies.deliver, hid]
  dsimp only
  split
  · next name r he =>
    rw [he] at htake
    cases htake
    have hr : (c.replies.take id).2 = r := congrArg Prod.snd he
    have hslot : (r.slot id).value = none := by
      rw [← hr]
      exact h.empty
    rw [Replies.value_slot_fill, if_pos rfl, hslot]
    rfl
  · next r he => rw [he] at htake; cases htake

end Awaits

end Client

end BrokeredRpc
