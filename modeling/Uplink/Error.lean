import Uplink.Config.Basic
import Uplink.Link.Error
import Uplink.Message
import Uplink.Payload.Error

/-!
# Errors of a cloud connection

Everything that an operation on a cloud connection can fail with.
-/

namespace Uplink

inductive CloudError where
  | config (cause : ConfigError)
  | codec (cause : CodecError)
  | transport (cause : LinkError)
  /-- A control message that is not what it claims to be. -/
  | validation (topic : String)
  | destination (fault : DestinationFault)
  | shutDown
deriving DecidableEq, Repr

namespace CloudError

def message : CloudError → String
  | config cause => s!"Configuration error: {cause.message}"
  | codec cause => s!"Payload codec error: {cause.message}"
  | transport cause => s!"Transport error: {cause.message}"
  | validation topic => s!"Message verification failed on topic {topic}"
  | destination fault => s!"Invalid destination: {fault.message}"
  | shutDown => "Cloud connection has been shut down"

def isConnectionError : CloudError → Bool
  | transport _ => true
  | _ => false

end CloudError

end Uplink
