/-!
# Shutdown causes

A `Shutdown` tells why a channel, the connection or a single subscription came
to its end: whether that was an error, whose side asked for it, and why.
-/
namespace BrokeredRpc

/-- What was shut down. -/
inductive Scope
  | channel (number : Nat)
  | connection
  | consumer (tag : String)
  deriving DecidableEq

def Scope.text : Scope → String
  | channel number => "channel " ++ toString number
  | connection => "connection"
  | consumer tag => "consumer " ++ tag

structure Shutdown where
  isHardError : Bool
  byApplication : Bool
  reason : String
  scope : Scope
  deriving DecidableEq

namespace Shutdown

/-- A subscription that the application cancelled. -/
def consumerCancelled (tag : String) : Shutdown where
  isHardError := false
  byApplication := true
  reason := "consumer cancelled"
  scope := .consumer tag

/-- A channel that the application closed. -/
def channelClosed (number : Nat) : Shutdown where
  isHardError := false
  byApplication := true
  reason := "channel closed by application"
  scope := .channel number

/-- A channel that failed, as if the peer had closed it. -/
def channelAborted (number : Nat) (reason : String) : Shutdown where
  isHardError := true
  byApplication := false
  reason
  scope := .channel number

/-- A connection that was lost. -/
def connectionAborted (reason : String) : Shutdown where
  isHardError := true
  byApplication := false
  reason
  scope := .connection

def text (s : Shutdown) : String :=
  (if s.isHardError then "hard error" else "clean") ++ " shutdown of " ++ s.scope.text
    ++ " initiated by " ++ (if s.byApplication then "application" else "peer")
    ++ ": " ++ s.reason

end Shutdown

end BrokeredRpc
