import BrokeredRpc.Json

/-!
# Message properties

The metadata that travels with every message: six optional fields and a table
of headers. Properties are values; an `Edit` writes one field or one header and
leaves the rest alone.

Results: `get_set` and `headers_set`, `get_setHeader` and `header_setHeader`
say what each edit does to each field and header.
-/
namespace BrokeredRpc

structure Properties where
  contentType : Option String := none
  contentEncoding : Option String := none
  headers : Table String := ∅
  correlationId : Option String := none
  replyTo : Option String := none
  messageId : Option String := none
  appId : Option String := none
  deriving DecidableEq

instance : Inhabited Properties := ⟨{}⟩

namespace Properties

/-- The optional fields. -/
inductive Field
  | contentType
  | contentEncoding
  | correlationId
  | replyTo
  | messageId
  | appId
  deriving DecidableEq, Repr

def get (p : Properties) : Field → Option String
  | .contentType => p.contentType
  | .contentEncoding => p.contentEncoding
  | .correlationId => p.correlationId
  | .replyTo => p.replyTo
  | .messageId => p.messageId
  | .appId => p.appId

def set (p : Properties) (field : Field) (value : String) : Properties :=
  match field with
  | .contentType => { p with contentType := some value }
  | .contentEncoding => { p with contentEncoding := some value }
  | .correlationId => { p with correlationId := some value }
  | .replyTo => { p with replyTo := some value }
  | .messageId => { p with messageId := some value }
  | .appId => { p with appId := some value }

def header (p : Properties) (key : String) : Option String := p.headers.get? key

/-- Adds or replaces one header. -/
def setHeader (p : Properties) (key value : String) : Properties :=
  { p with headers := p.headers.insert key value }

theorem get_set (p : Properties) (field : Field) (value : String) (f : Field) :
    (p.set field value).get f = if field = f then some value else p.get f := by
  cases field <;> cases f <;> rfl

@[simp] theorem headers_set (p : Properties) (field : Field) (value : String) :
    (p.set field value).headers = p.headers := by cases field <;> rfl

@[simp] theorem get_setHeader (p : Properties) (key value : String) (f : Field) :
    (p.setHeader key value).get f = p.get f := by cases f <;> rfl

theorem header_setHeader (p : Properties) (key value k : String) :
    (p.setHeader key value).header k = if key = k then some value else p.header k :=
  Table.get?_insert p.headers key value k

/-- Properties with the same fields and headers are equal. -/
theorem ext_get {p q : Properties} (hf : ∀ f, p.get f = q.get f)
    (hh : ∀ k, p.header k = q.header k) : p = q := by
  obtain ⟨_, _, _, _, _, _, _⟩ := p
  obtain ⟨_, _, _, _, _, _, _⟩ := q
  have h1 := hf .contentType; have h2 := hf .contentEncoding; have h3 := hf .correlationId
  have h4 := hf .replyTo; have h5 := hf .messageId; have h6 := hf .appId
  have h7 := Table.ext_get? hh
  simp_all [get]

/-! ## Edits -/

inductive Edit
  | field (field : Field) (value : String)
  | header (key value : String)
  deriving DecidableEq, Repr

def apply (p : Properties) : Edit → Properties
  | .field field value => p.set field value
  | .header key value => p.setHeader key value

/-- The edits one after another. -/
def edit (p : Properties) (edits : List Edit) : Properties := edits.foldl apply p

def ofEdits (edits : List Edit) : Properties := edit {} edits

/-! ## Written form -/

/-- An object with all seven keys, `null` for a field that is not set. -/
def toJson (p : Properties) : Json :=
  .object [
    ("content_type", .ofOptionalText p.contentType),
    ("content_encoding", .ofOptionalText p.contentEncoding),
    ("headers", .ofTexts p.headers),
    ("correlation_id", .ofOptionalText p.correlationId),
    ("reply_to", .ofOptionalText p.replyTo),
    ("message_id", .ofOptionalText p.messageId),
    ("app_id", .ofOptionalText p.appId)]

/-- Reads an object, in which only `headers` must be present and other keys are
passed over, or a list of the seven values in the order of `toJson`. -/
def ofJson? : Json → Option Properties
  | .array [contentType, contentEncoding, headers, correlationId, replyTo, messageId, appId] =>
    return {
      contentType := ← contentType.optionalText?
      contentEncoding := ← contentEncoding.optionalText?
      headers := ← headers.texts?
      correlationId := ← correlationId.optionalText?
      replyTo := ← replyTo.optionalText?
      messageId := ← messageId.optionalText?
      appId := ← appId.optionalText? }
  | .object members =>
    let fields := Table.ofList members
    let optional (key : String) := ((fields.get? key).getD .null).optionalText?
    return {
      contentType := ← optional "content_type"
      contentEncoding := ← optional "content_encoding"
      headers := ← (← fields.get? "headers").texts?
      correlationId := ← optional "correlation_id"
      replyTo := ← optional "reply_to"
      messageId := ← optional "message_id"
      appId := ← optional "app_id" }
  | _ => none

end Properties

end BrokeredRpc
