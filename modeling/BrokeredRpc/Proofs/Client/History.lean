import BrokeredRpc.Client

/-!
# What has happened on a client

A history lists, oldest first, the marks left on a client: calls registered,
withdrawn and timed out, replies arrived, the registry sealed and drained, slots
filled. Events leave marks of their own (`Event.mark`, `eventMarks`).

`repliesTo` reads off the replies to a call since it was registered; the first
of them is the one that counts (`FirstReply`), and what comes later never
changes that (`FirstReply.append`).
-/
namespace BrokeredRpc

inductive Client.Mark
  | registered (id : String)
  /-- Publishing the request has failed. -/
  | unpublished (id : String) (error : CallError)
  | timedOut (id : String)
  | replied (properties : Properties) (body : Bytes)
  | sealed (cause : Shutdown)
  | drained (slots : List String) (cause : Shutdown)
  /-- A slot is filled, by the reply of this number or because of a shutdown. -/
  | filled (slot : String) (outcome : Outcome) (reply : Option Nat)
  /-- The end of the subscription has been dealt with. -/
  | ended (cause : Shutdown)
  deriving DecidableEq

/-- The mark that an event leaves on the client. -/
def Event.mark (tag : String) : Event → Client.Mark
  | .delivery d => .replied d.properties d.body
  | .shutdown cause => .sealed cause
  | .cancelled => .sealed (.consumerCancelled tag)

namespace Client

abbrev History := List Mark

def Mark.reply? : Mark → Option (Properties × Bytes)
  | .replied properties body => some (properties, body)
  | _ => none

def Mark.registered? : Mark → Option String
  | .registered id => some id
  | _ => none

/-- The replies that have arrived. -/
def repliesIn (h : History) : List (Properties × Bytes) := h.filterMap Mark.reply?

/-- The replies to a call that have arrived since it was registered. -/
def repliesTo (id : String) (h : History) : List (Properties × Bytes) :=
  (repliesIn (h.dropWhile (· != .registered id))).filter (·.1.correlationId == some id)

/-- The mark has been left by an event. -/
def Mark.ofEvent : Mark → Bool
  | .replied .. | .sealed _ => true
  | _ => false

/-- The marks that events have left. -/
def eventMarks (h : History) : History := h.filter Mark.ofEvent

/-- The outcome of the first reply to a call. -/
def FirstReply (h : History) (id : String) (outcome : Outcome) : Prop :=
  ∃ properties body rest, repliesTo id h = (properties, body) :: rest ∧
    outcome = .ofReply properties body

variable {h : History} {id : String}

theorem mem_append_mark {m m' : Mark} (hm : m ∈ h ++ [m']) : m ∈ h ∨ m = m' :=
  (List.mem_append.1 hm).imp (fun hm => hm) List.mem_singleton.1

theorem mem_eventMarks {m : Mark} : m ∈ eventMarks h ↔ m ∈ h ∧ m.ofEvent = true := List.mem_filter

theorem eventMarks_append_mark {m : Mark} (hm : m.ofEvent = false) :
    eventMarks (h ++ [m]) = eventMarks h := by
  simp [eventMarks, List.filter_append, hm]

theorem repliesIn_append (h more : History) :
    repliesIn (h ++ more) = repliesIn h ++ repliesIn more := List.filterMap_append

theorem dropWhile_of_unregistered (hn : .registered id ∉ h) :
    h.dropWhile (· != .registered id) = [] := by
  rw [← List.append_nil h, List.dropWhile_append_of_pos, List.dropWhile_nil]
  intro m hm
  rw [bne_iff_ne]
  rintro rfl
  exact hn hm

theorem registered_mem_dropWhile (hm : .registered id ∈ h) :
    .registered id ∈ h.dropWhile (· != .registered id) := by
  rw [← List.takeWhile_append_dropWhile (p := (· != .registered id)) (l := h),
    List.mem_append] at hm
  rcases hm with hm | hm
  · have := List.all_eq_true.1 List.all_takeWhile _ hm
    simp at this
  · exact hm

theorem repliesTo_of_unregistered (hn : .registered id ∉ h) : repliesTo id h = [] := by
  rw [repliesTo, dropWhile_of_unregistered hn]; rfl

theorem repliesTo_append (hm : .registered id ∈ h) (more : History) :
    repliesTo id (h ++ more) =
      repliesTo id h ++ (repliesIn more).filter (·.1.correlationId == some id) := by
  have hne : ¬(h.dropWhile (· != .registered id)).isEmpty := by
    rw [List.isEmpty_iff]
    exact List.ne_nil_of_mem (registered_mem_dropWhile hm)
  rw [repliesTo, List.dropWhile_append, if_neg hne, repliesIn_append, List.filter_append]; rfl

theorem repliesTo_append_mark {m : Mark}
    (hm : ∀ properties body, m = .replied properties body → properties.correlationId ≠ some id) :
    repliesTo id (h ++ [m]) = repliesTo id h := by
  have hf : (repliesIn [m]).filter (·.1.correlationId == some id) = [] := by
    cases m with
    | replied properties body =>
      have := hm properties body rfl
      simp [repliesIn, Mark.reply?, this]
    | _ => rfl
  by_cases hr : .registered id ∈ h
  · rw [repliesTo_append hr, hf, List.append_nil]
  · rw [repliesTo_of_unregistered hr, repliesTo, List.dropWhile_append,
      dropWhile_of_unregistered hr]
    simp only [List.isEmpty_nil, if_true, List.dropWhile_cons]
    split
    · rfl
    · exact hf

theorem repliesTo_prefix (id : String) (h : History) (m : Mark) :
    repliesTo id h <+: repliesTo id (h ++ [m]) := by
  by_cases hr : .registered id ∈ h
  · rw [repliesTo_append hr]; exact List.prefix_append _ _
  · rw [repliesTo_of_unregistered hr]; exact List.nil_prefix

theorem mem_repliesTo {properties : Properties} {body : Bytes}
    (hr : (properties, body) ∈ repliesTo id h) :
    .replied properties body ∈ h ∧ properties.correlationId = some id := by
  obtain ⟨hm, hc⟩ := List.mem_filter.1 hr
  obtain ⟨m, hmem, hreply⟩ := List.mem_filterMap.1 hm
  have hin : m ∈ h := (List.dropWhile_suffix _).subset hmem
  cases m with
  | replied =>
    cases hreply
    exact ⟨hin, eq_of_beq hc⟩
  | _ => cases hreply

theorem FirstReply.append {outcome : Outcome} (hf : FirstReply h id outcome) (m : Mark) :
    FirstReply (h ++ [m]) id outcome := by
  obtain ⟨properties, body, rest, hr, ho⟩ := hf
  obtain ⟨more, hmore⟩ := repliesTo_prefix id h m
  refine ⟨properties, body, rest ++ more, ?_, ho⟩
  rw [← hmore, hr, List.cons_append]

theorem firstReply_of_replied {properties : Properties} {body : Bytes}
    (hm : .registered id ∈ h) (hn : repliesTo id h = []) (hc : properties.correlationId = some id) :
    FirstReply (h ++ [.replied properties body]) id (.ofReply properties body) := by
  refine ⟨properties, body, [], ?_, rfl⟩
  rw [repliesTo_append hm, hn]
  simp [repliesIn, Mark.reply?, hc]

end Client

end BrokeredRpc
