import Uplink.Payload.Basic
import Uplink.Qos
import Uplink.Topic

/-!
# Messages

What is published and what arrives. The destination of a message that is published is a topic, or
an application of which the options make a topic.
-/

namespace Uplink

inductive Destination where
  /-- To a topic as it is, apart from its placeholders. -/
  | full (topic : String)
  /-- To an application, of this gateway unless a device is named. -/
  | app (id topic : String) (control : Bool) (device : Option String)
deriving DecidableEq, Repr

inductive DestinationFault where
  | emptyTopic
  | emptyApp
  | described (text : String)
deriving DecidableEq, Repr

def DestinationFault.message : DestinationFault → String
  | .emptyTopic => "empty topic"
  | .emptyApp => "empty application id"
  | .described text => text

/-- The topic of a destination. -/
def Destination.resolve (o : Options) : Destination → Except DestinationFault String
  | .full topic => if topic.isEmpty then .error .emptyTopic else .ok topic
  | .app id topic control device =>
    if id.isEmpty then .error .emptyApp else .ok (o.topic device id topic control)

structure Message where
  payload : Payload
  destination : Destination
  qos : Qos := .atMostOnce
  retain : Bool := false
  priority : Nat := 5
deriving DecidableEq

namespace Message

def toApp (id topic : String) (payload : Payload) : Message :=
  { payload, destination := .app id topic false none }

def toTopic (topic : String) (payload : Payload) : Message :=
  { payload, destination := .full topic }

/-- Move a message to an application into the realm of control. -/
def control (m : Message) : Message :=
  match m.destination with
  | .app id topic _ device => { m with destination := .app id topic true device }
  | .full _ => m

def forDevice (m : Message) (device : String) : Message :=
  match m.destination with
  | .app id topic control _ => { m with destination := .app id topic control (some device) }
  | .full _ => m

def withQos (m : Message) (qos : Qos) : Message := { m with qos }

def retained (m : Message) (retain : Bool) : Message := { m with retain }

def withPriority (m : Message) (priority : Nat) : Message := { m with priority }

end Message

structure Received where
  topic : Topic
  payload : Payload
  qos : Qos
  retained : Bool
deriving DecidableEq

end Uplink
