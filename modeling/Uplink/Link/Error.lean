/-!
# What a transport cannot do
-/

namespace Uplink

/-- Why a transport did not do what it was asked to. -/
inductive LinkError where
  | notConnected
  | connectionFailed (reason : String)
  | publishFailed (topic reason : String)
  | subscriptionFailed (filter reason : String)
  | brokerAddress (reason : String)
  | qosLevel (level : Nat)
  | permanentlyDisconnected (reason : String)
deriving DecidableEq, Repr, Inhabited

def LinkError.message : LinkError → String
  | .notConnected => "Not connected"
  | .connectionFailed reason => s!"Connection failed: {reason}"
  | .publishFailed topic reason => s!"Publishing to {topic} failed: {reason}"
  | .subscriptionFailed filter reason => s!"Subscription to {filter} failed: {reason}"
  | .brokerAddress reason => s!"Invalid broker URL: {reason}"
  | .qosLevel level => s!"Invalid QoS level: {level}"
  | .permanentlyDisconnected reason => s!"Permanently disconnected: {reason}"

end Uplink
