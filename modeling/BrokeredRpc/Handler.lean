import BrokeredRpc.Message

/-!
# Request handlers

A handler answers requests. It may say how by any of seven methods: four for
calls, from the fully informed `call` down to `callParm`, which sees the
parameter alone, and three for casts, which are answered by nobody. A request
enters at the widest method and goes down to the first one that the handler
defines; each step down drops a piece of context. Where no method is defined
the request is unsupported.

Call methods may change the properties that the reply will carry, except the
narrowest, which does not see them. A method may also write notes.
-/
namespace BrokeredRpc

inductive HandlerError
  | unsupported (what : String)
  | failed (reason : String)
  deriving DecidableEq

def HandlerError.message : HandlerError → String
  | unsupported what => "no handler implemented for " ++ what
  | failed reason => reason

/-- The methods of a handler, each chain from its widest method down. -/
inductive Level
  | call
  | callProps
  | callReply
  | callParm
  | cast
  | castProps
  | castParm
  deriving DecidableEq, Repr

/-- What a method noted about a request: its own level, the parameter, and
those of envelope, request properties and reply properties that it saw. -/
structure Note where
  level : Level
  parm : Bytes
  envelope : Option Envelope := none
  request : Option Properties := none
  reply : Option Properties := none
  deriving DecidableEq

/-- What a method leaves: its answer and its notes. -/
structure Handled (α : Type) where
  answer : Except HandlerError α
  notes : List Note := []

/-- What a call method leaves: besides, the properties of the reply. -/
structure CallHandled extends Handled Bytes where
  reply : Properties

/-- The methods that a handler defines. -/
structure Handler where
  call : Option (Envelope → Properties → Bytes → Properties → CallHandled) := none
  callProps : Option (Properties → Bytes → Properties → CallHandled) := none
  callReply : Option (Bytes → Properties → CallHandled) := none
  callParm : Option (Bytes → Handled Bytes) := none
  cast : Option (Envelope → Properties → Bytes → Handled Unit) := none
  castProps : Option (Properties → Bytes → Handled Unit) := none
  castParm : Option (Bytes → Handled Unit) := none

namespace Handler

def handleCallParm (h : Handler) (parm : Bytes) : Handled Bytes :=
  match h.callParm with
  | some method => method parm
  | none => { answer := .error (.unsupported "call") }

def handleCallReply (h : Handler) (parm : Bytes) (reply : Properties) : CallHandled :=
  match h.callReply with
  | some method => method parm reply
  | none => { h.handleCallParm parm with reply }

def handleCallProps (h : Handler) (request : Properties) (parm : Bytes)
    (reply : Properties) : CallHandled :=
  match h.callProps with
  | some method => method request parm reply
  | none => h.handleCallReply parm reply

/-- A call, with all its context. -/
def handleCall (h : Handler) (envelope : Envelope) (request : Properties) (parm : Bytes)
    (reply : Properties) : CallHandled :=
  match h.call with
  | some method => method envelope request parm reply
  | none => h.handleCallProps request parm reply

def handleCastParm (h : Handler) (parm : Bytes) : Handled Unit :=
  match h.castParm with
  | some method => method parm
  | none => { answer := .error (.unsupported "cast") }

def handleCastProps (h : Handler) (request : Properties) (parm : Bytes) : Handled Unit :=
  match h.castProps with
  | some method => method request parm
  | none => h.handleCastParm parm

/-- A cast, with all its context. -/
def handleCast (h : Handler) (envelope : Envelope) (request : Properties) (parm : Bytes) :
    Handled Unit :=
  match h.cast with
  | some method => method envelope request parm
  | none => h.handleCastProps request parm

/-- Answers every call with its own parameter; casts are unsupported. -/
def echo : Handler where
  callParm := some fun parm => { answer := .ok parm }

end Handler

end BrokeredRpc
