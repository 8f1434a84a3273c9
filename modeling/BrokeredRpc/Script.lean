import BrokeredRpc.Handler

/-!
# Scripted handlers

A script says what every method of a handler does: note what it sees, edit the
properties of the reply if it sees them, and give a fixed answer. `handler`
puts the script behind a chosen set of methods.
-/
namespace BrokeredRpc

/-- The answer that a script gives. -/
inductive Script.Verdict
  | echo
  | value (result : Bytes)
  | failed (reason : String)
  | unsupported (what : String)

structure Script where
  edits : List Properties.Edit := []
  verdict : Script.Verdict := .echo

namespace Script

/-- The answer to a request with parameter `parm`. -/
def answer (s : Script) (parm : Bytes) : Except HandlerError Bytes :=
  match s.verdict with
  | .echo => .ok parm
  | .value result => .ok result
  | .failed reason => .error (.failed reason)
  | .unsupported what => .error (.unsupported what)

/-- A call method that sees reply properties: it edits them. -/
def onCall (s : Script) (note : Note) (reply : Properties) : CallHandled where
  answer := s.answer note.parm
  notes := [{ note with reply := some reply }]
  reply := reply.edit s.edits

/-- A cast method. -/
def onCast (s : Script) (note : Note) : Handled Unit where
  answer := (s.answer note.parm).map fun _ => ()
  notes := [note]

/-- The handler that runs the script in each method of `levels`. -/
def handler (s : Script) (levels : List Level) : Handler where
  call := if .call ∈ levels then
    some fun envelope request parm reply =>
      s.onCall { level := .call, parm, envelope := some envelope, request := some request } reply
    else none
  callProps := if .callProps ∈ levels then
    some fun request parm reply =>
      s.onCall { level := .callProps, parm, request := some request } reply
    else none
  callReply := if .callReply ∈ levels then
    some fun parm reply => s.onCall { level := .callReply, parm } reply
    else none
  callParm := if .callParm ∈ levels then
    some fun parm => { answer := s.answer parm, notes := [{ level := .callParm, parm }] }
    else none
  cast := if .cast ∈ levels then
    some fun envelope request parm =>
      s.onCast { level := .cast, parm, envelope := some envelope, request := some request }
    else none
  castProps := if .castProps ∈ levels then
    some fun request parm => s.onCast { level := .castProps, parm, request := some request }
    else none
  castParm := if .castParm ∈ levels then
    some fun parm => s.onCast { level := .castParm, parm }
    else none

end Script

end BrokeredRpc
