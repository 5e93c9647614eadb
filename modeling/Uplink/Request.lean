import Uplink.Message
import Uplink.Text.Redaction

/-!
# Control requests and their answers

A request is a control message to an application. It says in its payload or its topic who asks and
under which id, and the answer goes to the asker's topic of that id. A request that does not say
both gets no answer.
-/

namespace Uplink

open Time

/-- Why an application refuses a request. -/
inductive RequestError where
  | badRequest (reason : String)
  | notFound (reason : String)
  | internal (reason : String)
deriving DecidableEq, Repr

namespace RequestError

def code : RequestError → Int32
  | badRequest _ => 400
  | notFound _ => 404
  | internal _ => 500

def message : RequestError → String
  | badRequest reason => s!"Bad request: {reason}"
  | notFound reason => s!"Resource not found: {reason}"
  | internal reason => reason

end RequestError

namespace Request

/-! The metrics that connect a request with its answer. -/

def idMetric : String := "request.id"

def requesterMetric : String := "requester.client.id"

def codeMetric : String := "response.code"

def exceptionMetric : String := "response.exception.message"

def okCode : Int32 := 200

/-- What an application is told about a request besides its payload. -/
structure Context where
  app : String
  topic : Topic
  method : Option Method
  resource : List String
  requestId : Option String
  requester : Option String
deriving DecidableEq

/-- The context of a control message. An id in the payload goes before that of the topic. -/
def Context.of (o : Options) (topic : Topic) (payload : Payload) : Context where
  app := topic.app
  topic := topic
  method := topic.method o
  resource := topic.resource o
  requestId := payload.string? idMetric <|> topic.requestId
  requester := payload.string? requesterMetric

abbrev Outcome := Except RequestError Payload

/-- The payload of an answer. That of a refusal is made at a given time. -/
def answer (now : Instant) : Outcome → Payload
  | .ok payload => payload.add codeMetric (.int okCode)
  | .error e =>
    (Payload.stamped now |>.add codeMetric (.int e.code)).add exceptionMetric
      (.string (Redaction.redact e.message))

/-- The message that answers a request, if the request says where the answer goes. -/
def reply (now : Instant) (context : Context) (outcome : Outcome) : Option Message :=
  match context.requester, context.requestId with
  | some requester, some id =>
    some ((Message.toApp context.app (replyLevel ++ "/" ++ id) (answer now outcome)
      |>.control |>.forDevice requester).withQos .atLeastOnce)
  | _, _ => none

end Request

end Uplink
