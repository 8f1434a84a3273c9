import BrokeredRpc.Proofs.Client.Frames
import BrokeredRpc.Proofs.Network.Histories
import Mathlib.Logic.Relation

/-!
# A client on any transport

A client does not know what it runs on: it makes a request, gets some answer,
and while it waits for it replies come in and callers give up. A `Transport` is
anything that answers requests; a `Session` is a client on one, with the
requests made so far. Only one operation at a time holds a client's lock, so
the operations on it, whichever callers they come from, are one sequence.

* `run_gives`: the requests of a run and their answers are those of the
  transport, threaded through its states.
* `perform_course`: what one operation can do, request by request. An opening
  has three courses, and closing an open client three; everything else makes no
  request, but for the call that publishes.
* `run_lifecycle`: the life of a client, over all transports and all sequences
  of operations.
* `runClient_eq`: the clients of a network are clients on such a transport.
-/
namespace BrokeredRpc

/-- One step in the life of a client. -/
inductive Lifecycle.Next : Lifecycle → Lifecycle → Prop
  | opens {queue tag : String} : Next .unopened (.opened queue tag)
  | closes {queue tag : String} : Next (.opened queue tag) (.closed queue)

namespace Client

/-! ## Transports and sessions -/

/-- A request that a client has made, with its answer, and what became of the client's replies
while it was under way. -/
structure Exchange where
  stage : Stage
  answer : Except TransportError stage.Grant
  meanwhile : Replies → Replies

/-- A transport with the states `σ`: it answers requests. -/
abbrev Transport (σ : Type) : Type :=
  σ → (stage : Stage) → Except TransportError stage.Grant × (Replies → Replies) × σ

/-- A client on a transport that has come to the state `world`. -/
structure Session (σ : Type) where
  client : Client
  world : σ
  /-- The requests made so far, oldest first. -/
  exchanges : List Exchange := []

/-- What can happen to a client: an operation, or something that concerns its replies only. -/
inductive Turn
  | operation (op : Operation)
  | replies (change : Replies → Replies)

/-- The subscription that a request has brought: its queue and its tag. -/
def Exchange.subscription? : Exchange → Option (String × String)
  | { stage := .subscribing queue, answer := .ok tag, .. } => some (queue, tag)
  | _ => none

/-- The exchanges are those of a transport that goes from one state to another with them. -/
inductive Transport.Gives {σ : Type} (t : Transport σ) : σ → List Exchange → σ → Prop
  | nothing {w : σ} : Gives t w [] w
  | answer {w next w' : σ} {x : Exchange} {rest : List Exchange}
      (hx : t w x.stage = (x.answer, x.meanwhile, next)) (hr : Gives t next rest w') :
      Gives t w (x :: rest) w'

theorem Transport.Gives.append {σ : Type} {t : Transport σ} {w w' w'' : σ} {xs ys : List Exchange}
    (hx : t.Gives w xs w') (hy : t.Gives w' ys w'') : t.Gives w (xs ++ ys) w'' := by
  induction hx with
  | nothing => exact hy
  | answer hx _ ih => exact .answer hx (ih hy)

/-- What becomes of replies while requests are under way. -/
def caught (xs : List Exchange) (r : Replies) : Replies :=
  xs.foldl (fun r x => x.meanwhile r) r

namespace Session

open Network (Conclusion conclusion? conclusion_cases)

variable {σ : Type}

def fresh (timeout : Timeout) (world : σ) : Session σ := { client := { timeout }, world }

/-- The subscriptions that the client has been granted. -/
def subscriptions (s : Session σ) : List (String × String) :=
  s.exchanges.filterMap Exchange.subscription?

/-- One request of an operation, and its answer. -/
def exchange (t : Transport σ) (s : Session σ) (stage : Stage) : Progress × Session σ :=
  let (answer, meanwhile, world) := t s.world stage
  let (client, progress) :=
    { s.client with replies := meanwhile s.client.replies }.resume stage answer
  (progress, { client, world, exchanges := s.exchanges ++ [⟨stage, answer, meanwhile⟩] })

/-- Carries an operation on to its end. -/
def advance (t : Transport σ) (s : Session σ) (stage : Stage) : Conclusion × Session σ :=
  match h : s.exchange t stage with
  | (.asking next, s') =>
    have : next.ahead < stage.ahead := ahead_resume_lt (congrArg Prod.fst h)
    s'.advance t next
  | (.done, s') => (.done, s')
  | (.failed error, s') => (.failed error, s')
  | (.waiting id, s') => (.waiting id, s')
termination_by stage.ahead

/-- An operation from its beginning to its end. -/
def perform (t : Transport σ) (s : Session σ) (op : Operation) : Conclusion × Session σ :=
  match s.client.start op with
  | (client, .asking stage) => { s with client }.advance t stage
  | (client, .done) => (.done, { s with client })
  | (client, .failed error) => (.failed error, { s with client })
  | (client, .waiting id) => (.waiting id, { s with client })

def turn (t : Transport σ) (s : Session σ) : Turn → Session σ
  | .operation op => (s.perform t op).2
  | .replies change => { s with client.replies := change s.client.replies }

def run (t : Transport σ) (s : Session σ) (turns : List Turn) : Session σ :=
  turns.foldl (turn t) s

variable {t : Transport σ} {s s' : Session σ}

theorem advance_of_conclusion {stage : Stage} {progress : Progress} {c : Conclusion}
    (hx : s.exchange t stage = (progress, s')) (hc : conclusion? progress = some c) :
    s.advance t stage = (c, s') := by
  rw [advance]
  split <;> next hx' =>
    cases hx.symm.trans hx'
    cases hc <;> rfl

theorem advance_of_asking {stage next : Stage} (hx : s.exchange t stage = (.asking next, s')) :
    s.advance t stage = s'.advance t next := by
  rw [advance]
  split <;> next hx' =>
    cases hx.symm.trans hx' <;> rfl

/-! ## What the transport gives -/

theorem exchange_gives (t : Transport σ) (s : Session σ) (stage : Stage) :
    ∃ new, (s.exchange t stage).2.exchanges = s.exchanges ++ new ∧
      t.Gives s.world new (s.exchange t stage).2.world :=
  ⟨[⟨stage, (t s.world stage).1, (t s.world stage).2.1⟩], rfl, .answer rfl .nothing⟩

theorem gives_of_conclusion {stage : Stage} {progress : Progress} {c : Conclusion}
    (hx : s.exchange t stage = (progress, s')) (hc : conclusion? progress = some c) :
    ∃ new, (s.advance t stage).2.exchanges = s.exchanges ++ new ∧
      t.Gives s.world new (s.advance t stage).2.world := by
  have h := exchange_gives t s stage
  rw [hx] at h
  rw [advance_of_conclusion hx hc]
  exact h

/-- By induction on the requests that are still ahead. -/
theorem advance_gives (t : Transport σ) (s : Session σ) (stage : Stage) :
    ∃ new, (s.advance t stage).2.exchanges = s.exchanges ++ new ∧
      t.Gives s.world new (s.advance t stage).2.world := by
  induction s, stage using advance.induct t with
  | case1 s stage next s' hx _ ih =>
    obtain ⟨new, he, hg⟩ := exchange_gives t s stage
    obtain ⟨new', he', hg'⟩ := ih
    rw [hx] at he hg
    rw [advance_of_asking hx]
    exact ⟨new ++ new', by rw [he', he, List.append_assoc], hg.append hg'⟩
  | case2 s stage s' hx => exact gives_of_conclusion hx rfl
  | case3 s stage error s' hx => exact gives_of_conclusion hx rfl
  | case4 s stage id s' hx => exact gives_of_conclusion hx rfl

theorem perform_gives (t : Transport σ) (s : Session σ) (op : Operation) :
    ∃ new, (s.perform t op).2.exchanges = s.exchanges ++ new ∧
      t.Gives s.world new (s.perform t op).2.world := by
  unfold perform
  split
  · exact advance_gives t _ _
  all_goals exact ⟨[], (List.append_nil _).symm, .nothing⟩

theorem run_gives (t : Transport σ) (turns : List Turn) :
    ∀ s : Session σ, ∃ new, (s.run t turns).exchanges = s.exchanges ++ new ∧
      t.Gives s.world new (s.run t turns).world := by
  induction turns with
  | nil => exact fun s => ⟨[], (List.append_nil _).symm, .nothing⟩
  | cons turn rest ih =>
    intro s
    obtain ⟨new', he', hg'⟩ := ih (s.turn t turn)
    cases turn with
    | replies change => exact ⟨new', he', hg'⟩
    | operation op =>
      obtain ⟨new, he, hg⟩ := perform_gives t s op
      refine ⟨new ++ new', he'.trans ?_, hg.append hg'⟩
      rw [turn, he, List.append_assoc]

/-! ## The course of an operation -/

/-- The courses that an operation can take in a lifecycle: the requests it makes, with their
answers, how it ends, and the lifecycle it leaves. -/
inductive Course : Lifecycle → Operation → List Exchange → Conclusion → Lifecycle → Prop
  /-- There is no queue to open with. -/
  | undeclared {e : TransportError} {f : Replies → Replies} :
      Course .unopened .opening [⟨.declaring, .error e, f⟩] (.failed (.transport e)) .unopened
  /-- The queue is there, but not the subscription: the queue is deleted, or at least that is
  asked for. -/
  | unsubscribed {queue : String} {e : TransportError} {a : Except TransportError Unit}
      {f g k : Replies → Replies} :
      Course .unopened .opening
        [⟨.declaring, .ok queue, f⟩, ⟨.subscribing queue, .error e, g⟩,
          ⟨.discarding queue e, a, k⟩]
        (.failed (.transport e)) .unopened
  | opened {queue tag : String} {f g : Replies → Replies} :
      Course .unopened .opening [⟨.declaring, .ok queue, f⟩, ⟨.subscribing queue, .ok tag, g⟩]
        .done (.opened queue tag)
  | alreadyOpen {queue tag : String} :
      Course (.opened queue tag) .opening [] (.failed .alreadyOpen) (.opened queue tag)
  | shut {queue : String} :
      Course (.closed queue) .opening [] (.failed .closed) (.closed queue)
  | idle {l : Lifecycle} (hl : ∀ queue tag, l ≠ .opened queue tag) : Course l .closing [] .done l
  | cancelled {queue tag : String} {f : Replies → Replies} :
      Course (.opened queue tag) .closing [⟨.cancelling queue tag, .ok (), f⟩] .done
        (.closed queue)
  /-- The subscription has ended with its channel. -/
  | gone {queue tag : String} {cause : Shutdown} {f : Replies → Replies} :
      Course (.opened queue tag) .closing
        [⟨.cancelling queue tag, .error (.channelClosed cause), f⟩] .done (.closed queue)
  | unclosed {queue tag : String} {e : TransportError} {f : Replies → Replies}
      (he : ∀ cause, e ≠ .channelClosed cause) :
      Course (.opened queue tag) .closing [⟨.cancelling queue tag, .error e, f⟩]
        (.failed (.transport e)) (.opened queue tag)
  | notOpen {l : Lifecycle} {m : Message} (hl : ∀ queue tag, l ≠ .opened queue tag) :
      Course l (.calling m) [] (.failed .notOpen) l
  | sealed {queue tag : String} {m : Message} {cause : Shutdown} :
      Course (.opened queue tag) (.calling m) [] (.failed (.transportShutdown cause))
        (.opened queue tag)
  | asked {queue tag id : String} {m m' : Message} {a : Except TransportError Unit}
      {f : Replies → Replies} {c : Conclusion} :
      Course (.opened queue tag) (.calling m) [⟨.publishing id m', a, f⟩] c (.opened queue tag)

theorem exchange_eq {stage : Stage} {a : Except TransportError stage.Grant}
    {f : Replies → Replies} {world : σ} {client : Client} {progress : Progress}
    (ha : t s.world stage = (a, f, world))
    (hr : { s.client with replies := f s.client.replies }.resume stage a = (client, progress)) :
    s.exchange t stage = (progress, ⟨client, world, s.exchanges ++ [⟨stage, a, f⟩]⟩) := by
  simp only [exchange, ha, hr]

/-- The session after the requests `new`, when they have not touched more than the lifecycle. -/
def after (s : Session σ) (new : List Exchange) (lifecycle : Lifecycle) (world : σ) :
    Session σ where
  client := { s.client with lifecycle, replies := caught new s.client.replies }
  world
  exchanges := s.exchanges ++ new

theorem gives_of_after {op : Operation} {new : List Exchange} {c : Conclusion} {l : Lifecycle}
    {w : σ} (hp : s.perform t op = (c, s.after new l w)) : t.Gives s.world new w := by
  obtain ⟨new', he, hg⟩ := perform_gives t s op
  rw [hp] at he hg
  rw [List.append_cancel_left he]
  exact hg

theorem after_after (s : Session σ) (xs ys : List Exchange) (l l' : Lifecycle) (w w' : σ) :
    (s.after xs l w).after ys l' w' = s.after (xs ++ ys) l' w' := by
  simp [after, caught]

theorem advance_discarding (t : Transport σ) (s : Session σ) (queue : String)
    (e : TransportError) :
    ∃ a f w, s.advance t (.discarding queue e) =
      (.failed (.transport e), s.after [⟨.discarding queue e, a, f⟩] s.client.lifecycle w) := by
  obtain ⟨a, f, w, ha⟩ : ∃ a f w, t s.world (.discarding queue e) = (a, f, w) := ⟨_, _, _, rfl⟩
  exact ⟨a, f, w, advance_of_conclusion (exchange_eq ha rfl) rfl⟩

/-- The client subscribes to the queue that it has declared, or asks for it to be deleted. -/
theorem advance_subscribing (t : Transport σ) (s : Session σ) (queue : String) :
    (∃ tag f w, s.advance t (.subscribing queue) =
        (.done, s.after [⟨.subscribing queue, .ok tag, f⟩] (.opened queue tag) w)) ∨
      ∃ e a f g w, s.advance t (.subscribing queue) =
        (.failed (.transport e),
          s.after [⟨.subscribing queue, .error e, f⟩, ⟨.discarding queue e, a, g⟩]
            s.client.lifecycle w) := by
  obtain ⟨a, f, w, ha⟩ : ∃ a f w, t s.world (.subscribing queue) = (a, f, w) := ⟨_, _, _, rfl⟩
  cases a with
  | ok tag => exact Or.inl ⟨tag, f, w, advance_of_conclusion (exchange_eq ha rfl) rfl⟩
  | error e =>
    have hx : s.exchange t (.subscribing queue) = (.asking (.discarding queue e),
        s.after [⟨.subscribing queue, .error e, f⟩] s.client.lifecycle w) := exchange_eq ha rfl
    obtain ⟨a, g, w', hd⟩ := advance_discarding t
      (s.after [⟨.subscribing queue, .error e, f⟩] s.client.lifecycle w) queue e
    refine Or.inr ⟨e, a, f, g, w', ?_⟩
    rw [advance_of_asking hx, hd, after_after]
    rfl

theorem perform_opening (t : Transport σ) (hl : s.client.lifecycle = .unopened) :
    ∃ new c l w, Course .unopened .opening new c l ∧
      s.perform t .opening = (c, s.after new l w) := by
  have hs : s.perform t .opening = s.advance t .declaring := by
    simp only [perform, Client.start, startOpen, hl]
  obtain ⟨a, f, w, ha⟩ : ∃ a f w, t s.world .declaring = (a, f, w) := ⟨_, _, _, rfl⟩
  rw [hs]
  cases a with
  | error e =>
    have hx : s.advance t .declaring = (.failed (.transport e),
        s.after [⟨.declaring, .error e, f⟩] s.client.lifecycle w) :=
      advance_of_conclusion (exchange_eq ha rfl) rfl
    rw [hl] at hx
    exact ⟨_, _, _, w, .undeclared, hx⟩
  | ok queue =>
    have hx : s.exchange t .declaring = (.asking (.subscribing queue),
        s.after [⟨.declaring, .ok queue, f⟩] s.client.lifecycle w) := exchange_eq ha rfl
    rw [advance_of_asking hx]
    rcases advance_subscribing t (s.after [⟨.declaring, .ok queue, f⟩] s.client.lifecycle w) queue
      with ⟨tag, g, w', hd⟩ | ⟨e, a, g, k, w', hd⟩ <;> rw [after_after] at hd
    · exact ⟨_, _, _, w', .opened, hd⟩
    · rw [show (s.after _ _ w).client.lifecycle = .unopened from hl] at hd
      exact ⟨_, _, _, w', .unsubscribed, hd⟩

theorem perform_closing (t : Transport σ) {queue tag : String}
    (hl : s.client.lifecycle = .opened queue tag) :
    ∃ new c l w, Course (.opened queue tag) .closing new c l ∧
      s.perform t .closing = (c, s.after new l w) := by
  have hs : s.perform t .closing = s.advance t (.cancelling queue tag) := by
    simp only [perform, Client.start, startClose, hl]
  obtain ⟨a, f, w, ha⟩ : ∃ a f w, t s.world (.cancelling queue tag) = (a, f, w) := ⟨_, _, _, rfl⟩
  rw [hs]
  cases a with
  | ok value =>
    exact ⟨_, _, _, w, .cancelled, advance_of_conclusion (exchange_eq ha rfl) rfl⟩
  | error e =>
    by_cases he : ∃ cause, e = .channelClosed cause
    · obtain ⟨cause, rfl⟩ := he
      exact ⟨_, _, _, w, .gone, advance_of_conclusion (exchange_eq ha rfl) rfl⟩
    · have hr : { s.client with replies := f s.client.replies }.resume (.cancelling queue tag)
          (.error e) =
            ({ s.client with replies := f s.client.replies }, .failed (.transport e)) := by
        cases e with
        | channelClosed cause => exact absurd ⟨cause, rfl⟩ he
        | _ => rfl
      have hx : s.advance t (.cancelling queue tag) = (.failed (.transport e),
          s.after [⟨.cancelling queue tag, .error e, f⟩] s.client.lifecycle w) :=
        advance_of_conclusion (exchange_eq ha hr) rfl
      rw [hl] at hx
      exact ⟨_, _, _, w, .unclosed fun cause h => he ⟨cause, h⟩, hx⟩

theorem advance_publishing (t : Transport σ) (s : Session σ) (id : String) (m : Message) :
    ∃ a f, (s.advance t (.publishing id m)).2.client.lifecycle = s.client.lifecycle ∧
      (s.advance t (.publishing id m)).2.exchanges =
        s.exchanges ++ [⟨.publishing id m, a, f⟩] := by
  obtain ⟨a, f, w, ha⟩ : ∃ a f w, t s.world (.publishing id m) = (a, f, w) := ⟨_, _, _, rfl⟩
  have hends : ∃ client progress c,
      { s.client with replies := f s.client.replies }.resume (.publishing id m) a =
        (client, progress) ∧ conclusion? progress = some c ∧
      client.lifecycle = s.client.lifecycle := by
    cases a with
    | ok value => exact ⟨_, _, _, rfl, rfl, rfl⟩
    | error e => cases e <;> exact ⟨_, _, _, rfl, rfl, rfl⟩
  obtain ⟨client, progress, c, hr, hc, hl⟩ := hends
  rw [advance_of_conclusion (exchange_eq ha hr) hc]
  exact ⟨a, f, hl, rfl⟩

/-- A call on an open client is registered and asks for its request to be published, unless the
registry is sealed. -/
theorem start_of_opened {c : Client} {queue tag : String} (hl : c.lifecycle = .opened queue tag)
    (m : Message) :
    (∃ cause, c.start (.calling m) = (c.enrolled, .failed (.transportShutdown cause))) ∨
      ∃ id m', c.start (.calling m) = (c.enrolled, .asking (.publishing id m')) := by
  unfold enrolled
  simp only [Client.start, startCall, hl]
  split <;> next hr => rw [hr]; simp

theorem perform_calling (t : Transport σ) {queue tag : String}
    (hl : s.client.lifecycle = .opened queue tag) (m : Message) :
    ∃ new, Course (.opened queue tag) (.calling m) new (s.perform t (.calling m)).1
        (.opened queue tag) ∧
      (s.perform t (.calling m)).2.client.lifecycle = .opened queue tag ∧
      (s.perform t (.calling m)).2.exchanges = s.exchanges ++ new := by
  rcases start_of_opened hl m with ⟨cause, hs⟩ | ⟨id, m', hs⟩
  · simp only [perform, hs]
    exact ⟨[], .sealed, hl, by simp⟩
  · simp only [perform, hs]
    obtain ⟨a, f, hl', hx⟩ :=
      advance_publishing t { s with client := s.client.enrolled } id m'
    exact ⟨_, .asked, hl'.trans hl, hx⟩

/-! ## Refusals -/

theorem perform_of_opened (t : Transport σ) {queue tag : String}
    (hl : s.client.lifecycle = .opened queue tag) :
    s.perform t .opening = (.failed .alreadyOpen, s) := by
  simp only [perform, Client.start, startOpen, hl]

theorem perform_of_closed (t : Transport σ) {queue : String}
    (hl : s.client.lifecycle = .closed queue) : s.perform t .opening = (.failed .closed, s) := by
  simp only [perform, Client.start, startOpen, hl]

theorem perform_of_notOpen (t : Transport σ) (ho : s.client.isOpen = false) :
    s.perform t .closing = (.done, s) ∧ ∀ m, s.perform t (.calling m) = (.failed .notOpen, s) := by
  unfold isOpen at ho
  cases hl : s.client.lifecycle with
  | opened queue tag => rw [hl] at ho; cases ho
  | _ =>
    simp only [perform, Client.start, startClose, startCall, hl]
    exact ⟨trivial, fun _ => trivial⟩

/-! ## All operations -/

/-- **One operation.** Whatever the operation and the transport, it takes one of the courses. -/
theorem perform_course (t : Transport σ) (s : Session σ) (op : Operation) :
    ∃ new, Course s.client.lifecycle op new (s.perform t op).1
        (s.perform t op).2.client.lifecycle ∧
      (s.perform t op).2.exchanges = s.exchanges ++ new := by
  cases hl : s.client.lifecycle with
  | opened queue tag =>
    cases op with
    | opening =>
      rw [perform_of_opened t hl, hl]
      exact ⟨[], .alreadyOpen, by simp⟩
    | closing =>
      obtain ⟨new, c, l, w, hc, hp⟩ := perform_closing t hl
      rw [hp]
      exact ⟨new, hc, rfl⟩
    | calling m =>
      obtain ⟨new, hc, hl', hx⟩ := perform_calling t hl m
      rw [hl']
      exact ⟨new, hc, hx⟩
  | unopened =>
    have ho : s.client.isOpen = false := by rw [isOpen, hl]
    cases op with
    | opening =>
      obtain ⟨new, c, l, w, hc, hp⟩ := perform_opening t hl
      rw [hp]
      exact ⟨new, hc, rfl⟩
    | closing =>
      rw [(perform_of_notOpen t ho).1, hl]
      exact ⟨[], .idle nofun, by simp⟩
    | calling m =>
      rw [(perform_of_notOpen t ho).2, hl]
      exact ⟨[], .notOpen nofun, by simp⟩
  | closed queue =>
    have ho : s.client.isOpen = false := by rw [isOpen, hl]
    cases op with
    | opening =>
      rw [perform_of_closed t hl, hl]
      exact ⟨[], .shut, by simp⟩
    | closing =>
      rw [(perform_of_notOpen t ho).1, hl]
      exact ⟨[], .idle nofun, by simp⟩
    | calling m =>
      rw [(perform_of_notOpen t ho).2, hl]
      exact ⟨[], .notOpen nofun, by simp⟩

theorem Course.next {l l' : Lifecycle} {op : Operation} {new : List Exchange} {c : Conclusion}
    (h : Course l op new c l') : l' = l ∨ l.Next l' := by
  cases h with
  | opened => exact Or.inr .opens
  | cancelled => exact Or.inr .closes
  | gone => exact Or.inr .closes
  | _ => exact Or.inl rfl

/-! ## Subscriptions -/

/-- The subscriptions granted to a client that has come this far: none until it opens, one from
then on. -/
def Granted : Lifecycle → List (String × String) → Prop
  | .unopened, subscriptions => subscriptions = []
  | .opened queue tag, subscriptions => subscriptions = [(queue, tag)]
  | .closed queue, subscriptions => ∃ tag, subscriptions = [(queue, tag)]

theorem Course.granted {l l' : Lifecycle} {op : Operation} {new : List Exchange} {c : Conclusion}
    (h : Course l op new c l') {subscriptions : List (String × String)}
    (hg : Granted l subscriptions) :
    Granted l' (subscriptions ++ new.filterMap Exchange.subscription?) := by
  cases h with
  | opened =>
    rw [show subscriptions = [] from hg]
    rfl
  | @cancelled queue tag =>
    rw [show subscriptions = [(queue, tag)] from hg]
    exact ⟨tag, rfl⟩
  | @gone queue tag =>
    rw [show subscriptions = [(queue, tag)] from hg]
    exact ⟨tag, rfl⟩
  | _ =>
    rw [show List.filterMap Exchange.subscription? _ = [] from rfl, List.append_nil]
    exact hg

theorem turn_granted (t : Transport σ) (h : Granted s.client.lifecycle s.subscriptions)
    (turn : Turn) :
    Granted (s.turn t turn).client.lifecycle (s.turn t turn).subscriptions := by
  cases turn with
  | replies change => exact h
  | operation op =>
    obtain ⟨new, hc, hx⟩ := perform_course t s op
    simp only [Session.turn, subscriptions, hx, List.filterMap_append]
    exact hc.granted h

theorem run_granted (t : Transport σ) (turns : List Turn) :
    ∀ {s : Session σ}, Granted s.client.lifecycle s.subscriptions →
      Granted (s.run t turns).client.lifecycle (s.run t turns).subscriptions := by
  induction turns with
  | nil => exact fun h => h
  | cons turn rest ih => exact fun h => ih (turn_granted t h turn)

theorem run_next (t : Transport σ) (turns : List Turn) :
    ∀ s : Session σ,
      Relation.ReflTransGen Lifecycle.Next s.client.lifecycle (s.run t turns).client.lifecycle := by
  induction turns with
  | nil => exact fun s => .refl
  | cons turn rest ih =>
    intro s
    refine Relation.ReflTransGen.trans ?_ (ih (s.turn t turn))
    cases turn with
    | replies change => exact .refl
    | operation op =>
      obtain ⟨new, hc, -⟩ := perform_course t s op
      rcases hc.next with he | hn
      · rw [Session.turn, he]
      · exact .single hn

theorem Granted.length_le {l : Lifecycle} {subscriptions : List (String × String)}
    (h : Granted l subscriptions) : subscriptions.length ≤ 1 := by
  cases l with
  | unopened => rw [show subscriptions = [] from h]; exact Nat.zero_le 1
  | opened queue tag => rw [show subscriptions = [(queue, tag)] from h]; exact Nat.le_refl 1
  | closed queue =>
    obtain ⟨tag, rfl⟩ := h
    exact Nat.le_refl 1

theorem Granted.replyQueue? {c : Client} {subscriptions : List (String × String)}
    (h : Granted c.lifecycle subscriptions) :
    c.replyQueue? = subscriptions.head?.map Prod.fst := by
  unfold Client.replyQueue?
  cases hl : c.lifecycle <;> rw [hl] at h
  · rw [show subscriptions = [] from h]
    rfl
  · rw [show subscriptions = _ from h]
    rfl
  · obtain ⟨tag, rfl⟩ := h
    rfl

/-- A client that has a reply queue keeps it. -/
theorem replyQueue?_run (t : Transport σ) (more : List Turn) {queue : String}
    (h : Granted s.client.lifecycle s.subscriptions) (hq : s.client.replyQueue? = some queue) :
    (s.run t more).client.replyQueue? = some queue := by
  obtain ⟨later, hx, -⟩ := run_gives t more s
  rw [h.replyQueue?] at hq
  rw [(run_granted t more h).replyQueue?, subscriptions, hx, List.filterMap_append]
  cases hs : s.subscriptions with
  | nil => rw [hs] at hq; cases hq
  | cons first rest =>
    rw [hs] at hq
    rw [show s.exchanges.filterMap _ = first :: rest from hs]
    exact hq

/-- **The life of a client.** Take any transport, any sequence of operations on a client, and
then more of them.
* The client goes from unopened to opened to closed, one step at a time and never back.
* It is granted one subscription at most, and its reply queue is the one of that subscription:
  none before, and the same ever after.
* An opening of a client that has been opened before, and a call on one that is not open, fail
  and change nothing at all; so does closing a client that is not open, but for failing.
* An opening and a closing take one of their courses, and change nothing of the client but its
  lifecycle; what becomes of its replies meanwhile is not their doing.
* The requests of every operation are those of its course, and the answers to them, from the
  first one on, are those that the transport gives, each in the state it is then in. -/
theorem run_lifecycle (t : Transport σ) (timeout : Timeout) (world : σ) (past more : List Turn) :
    let s := (fresh timeout world).run t past
    let s' := s.run t more
    Relation.ReflTransGen Lifecycle.Next s.client.lifecycle s'.client.lifecycle ∧
      (∀ op, (s.perform t op).2.client.lifecycle = s.client.lifecycle ∨
        s.client.lifecycle.Next (s.perform t op).2.client.lifecycle) ∧
      s.subscriptions.length ≤ 1 ∧
      (∀ queue tag, s.client.lifecycle = .opened queue tag → s.subscriptions = [(queue, tag)]) ∧
      s.client.replyQueue? = s.subscriptions.head?.map Prod.fst ∧
      (∀ queue, s.client.replyQueue? = some queue → s'.client.replyQueue? = some queue) ∧
      (∀ queue tag, s.client.lifecycle = .opened queue tag →
        s.perform t .opening = (.failed .alreadyOpen, s)) ∧
      (∀ queue, s.client.lifecycle = .closed queue →
        s.perform t .opening = (.failed .closed, s)) ∧
      (s.client.isOpen = false → s.perform t .closing = (.done, s) ∧
        ∀ m, s.perform t (.calling m) = (.failed .notOpen, s)) ∧
      (s.client.lifecycle = .unopened →
        ∃ new c l w, Course .unopened .opening new c l ∧ t.Gives s.world new w ∧
          s.perform t .opening = (c, s.after new l w)) ∧
      (∀ queue tag, s.client.lifecycle = .opened queue tag →
        ∃ new c l w, Course (.opened queue tag) .closing new c l ∧ t.Gives s.world new w ∧
          s.perform t .closing = (c, s.after new l w)) ∧
      t.Gives world s.exchanges s.world ∧
      ∀ op, ∃ new, Course s.client.lifecycle op new (s.perform t op).1
          (s.perform t op).2.client.lifecycle ∧
        (s.perform t op).2.exchanges = s.exchanges ++ new ∧
        t.Gives s.world new (s.perform t op).2.world := by
  intro s s'
  have hg : Granted s.client.lifecycle s.subscriptions := run_granted t past rfl
  obtain ⟨sofar, hx₀, hgives⟩ := run_gives t past (fresh timeout world)
  obtain rfl : s.exchanges = sofar := hx₀
  refine ⟨run_next t more s, fun op => ?_, hg.length_le, fun queue tag hl => ?_, hg.replyQueue?,
    fun _ => replyQueue?_run t more hg, fun _ _ => perform_of_opened t,
    fun _ => perform_of_closed t, perform_of_notOpen t, fun hl => ?_, fun queue tag hl => ?_,
    hgives, fun op => ?_⟩
  · obtain ⟨new, hc, -⟩ := perform_course t s op
    exact hc.next
  · rw [hl] at hg
    exact hg
  · obtain ⟨new, c, l, w, hc, hp⟩ := perform_opening t hl
    exact ⟨new, c, l, w, hc, gives_of_after hp, hp⟩
  · obtain ⟨new, c, l, w, hc, hp⟩ := perform_closing t hl
    exact ⟨new, c, l, w, hc, gives_of_after hp, hp⟩
  · obtain ⟨new, hc, hx'⟩ := perform_course t s op
    obtain ⟨new', he, hgiven⟩ := perform_gives t s op
    obtain rfl := List.append_cancel_left (hx'.symm.trans he)
    exact ⟨new, hc, hx', hgiven⟩

/-- A transport that counts its answers and refuses the first subscription. -/
def refusesFirst : Transport Nat := fun n stage =>
  match stage with
  | .declaring => (.ok (if n = 0 then "first" else "second"), id, n + 1)
  | .subscribing _ => (if n = 1 then .error (.queueBusy "first") else .ok "t", id, n + 1)
  | .discarding .. => (.ok (), id, n + 1)
  | .cancelling .. => (.ok (), id, n + 1)
  | .publishing .. => (.ok (), id, n + 1)

/-- The first opening declares a queue, cannot subscribe to it and has it deleted; the second one
opens the client, and there is no third. -/
theorem run_lifecycle_refusesFirst :
    let s := (fresh .infinite 0).run refusesFirst [.operation .opening, .operation .opening]
    s.subscriptions = [("second", "t")] ∧ s.client.replyQueue? = some "second" ∧
      s.perform refusesFirst .opening = (.failed .alreadyOpen, s) ∧
      refusesFirst.Gives 0 s.exchanges s.world ∧
      s.exchanges.map (fun x => match x.stage with
        | .discarding queue _ => some queue
        | _ => none) = [none, none, some "first", none, none] := by
  intro s
  have hl : s.client.lifecycle = .opened "second" "t" := by decide +kernel
  obtain ⟨-, -, -, hgranted, hqueue, -, hopened, -, -, -, -, hgives, -⟩ :=
    run_lifecycle refusesFirst .infinite 0 [.operation .opening, .operation .opening] []
  have hsub : s.subscriptions = [("second", "t")] := hgranted _ _ hl
  refine ⟨hsub, ?_, hopened _ _ hl, hgives, by decide +kernel⟩
  rw [hqueue]
  exact congrArg _ (congrArg List.head? hsub)

end Session

end Client

/-! ## Networks as transports -/

namespace Network

open Client (Session Transport)

/-- The network as the transport of one of its clients; what is sent to the client is handled
between its operations. -/
def transport (index : Nat) (e : Endpoint) : Transport Network := fun n stage =>
  ((n.ask index e stage).1, id, (n.ask index e stage).2)

/-- The broker does not see what a client keeps to itself. -/
theorem ask_setClient (n : Network) (index : Nat) (e : Endpoint) (client : Client)
    (stage : Client.Stage) :
    (n.setClient index client).ask index { e with client } stage =
      ((n.ask index e stage).1, (n.ask index e stage).2.setClient index client) := by
  unfold ask
  dsimp only
  split
  · rfl
  · cases stage with
    | subscribing queue =>
      simp only [subscribe, absorb, setClient]
      cases (n.broker.consume e.channel queue).answer <;> rfl
    | _ => rfl

theorem endpoints_ask (n : Network) (index : Nat) (e : Endpoint) (stage : Client.Stage) :
    (n.ask index e stage).2.endpoints = n.endpoints := by
  unfold ask
  split
  · rfl
  · cases stage with
    | subscribing queue =>
      simp only [subscribe, absorb]
      cases (n.broker.consume e.channel queue).answer <;> rfl
    | _ => rfl

theorem setClient_setClient (n : Network) (index : Nat) (client client' : Client) :
    (n.setClient index client).setClient index client' = n.setClient index client' := by
  have hends : (n.setClient index client).endpoints.modify index ({ · with client := client' }) =
      n.endpoints.modify index ({ · with client := client' }) := by
    refine Array.ext_getElem? fun i => ?_
    rw [Array.getElem?_modify, getElem?_setClient, Array.getElem?_modify]
    split
    · rw [Option.map_map]; rfl
    · rfl
  rw [setClient, hends]
  rfl

/-- The network in which the client of a session is one of the endpoints. -/
def withSession (index : Nat) (s : Session Network) : Network :=
  s.world.setClient index s.client

theorem exchange_withSession (index : Nat) (e : Endpoint) (s : Session Network)
    (stage : Client.Stage) :
    (withSession index s).exchange index { e with client := s.client } stage =
      ((s.exchange (transport index e) stage).1,
        withSession index (s.exchange (transport index e) stage).2) := by
  simp only [exchange, withSession, ask_setClient, setClient_setClient, Session.exchange,
    transport, id]

/-- By induction on a bound for the number of requests that are still ahead. -/
theorem advance_withSession (index : Nat) (e : Endpoint) (bound : Nat) :
    ∀ (stage : Client.Stage) (s : Session Network), stage.ahead < bound →
      s.world.endpoints[index]? = some e →
      (withSession index s).advance index stage =
        ((s.advance (transport index e) stage).1,
          withSession index (s.advance (transport index e) stage).2) := by
  induction bound with
  | zero => exact fun stage s hk => absurd hk (Nat.not_lt_zero _)
  | succ k ih =>
    intro stage s hk he
    have hn := exchange_withSession index e s stage
    have he' : (withSession index s).endpoints[index]? = some { e with client := s.client } :=
      getElem?_setClient_self he s.client
    have hw : (s.exchange (transport index e) stage).2.world.endpoints[index]? = some e := by
      rw [← he, ← endpoints_ask s.world index e stage]
      rfl
    cases hx : s.exchange (transport index e) stage with
    | mk progress s' =>
    rw [hx] at hn hw
    rcases conclusion_cases progress with ⟨next, rfl⟩ | ⟨c, hc, -⟩
    · rw [advance_of_asking he' hn, Session.advance_of_asking hx]
      have hlt : next.ahead < stage.ahead := Client.ahead_resume_lt (congrArg Prod.fst hx)
      exact ih next s' (by omega) hw
    · rw [advance_of_conclusion he' hn hc, Session.advance_of_conclusion hx hc]

/-- **Networks.** An operation of a client of a network is an operation of a client on a
transport. -/
theorem runClient_eq {n : Network} {index : Nat} {e : Endpoint}
    (he : n.endpoints[index]? = some e) (op : Client.Operation) :
    let s : Session Network := { client := e.client, world := n }
    n.runClient index op =
      ((s.perform (transport index e) op).1,
        withSession index (s.perform (transport index e) op).2) := by
  intro s
  cases hs : e.client.start op with
  | mk client progress =>
  cases progress with
  | asking stage =>
    rw [runClient_of_asking he hs, Session.perform, hs]
    exact advance_withSession index e _ stage { s with client } (Nat.lt_succ_self _) he
  | _ =>
    rw [runClient_of_conclusion he hs rfl, Session.perform, hs]
    rfl

end Network

end BrokeredRpc
