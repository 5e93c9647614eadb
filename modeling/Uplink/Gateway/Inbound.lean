import Uplink.Gateway.Basic
import Uplink.Payload.Codec

/-!
# What comes in

A message from the cloud goes to its subscribers. If it is a request to an application that has a
handler, the request is put into the queue of the pool.
-/

namespace Uplink.Gateway

variable {σ : Type} [Transport σ]

/-- Applications under whose names the broker reports on itself. -/
def brokerApps : List String := ["MQTT", "BA"]

/-- What is done for a request: the handler is called, takes its time, and its outcome is sent to
who asked. -/
def requestSteps (clock : Clock) (handler : Handler) (context : Request.Context)
    (payload : Payload) : List Step :=
  -- There is no answer to a request if its handler fails, or if it does not say who asked.
  let reply := (handler.answer context payload).bind (Request.reply clock.now context)
  [.note (.requested handler.name context payload), .pause handler.delayMs] ++
    (reply.map .publish).toList

def dispatch (topic : Topic) (payload : Payload) (g : Gateway σ) : Gateway σ :=
  match g.handlers.get? topic.app with
  | none => g
  | some handler =>
    let context := Request.Context.of g.options topic payload
    match g.pool.submit (requestSteps g.clock handler context payload) with
    | .ok result => g.go result
    -- What finds no place in the queue is dropped.
    | .error _ => g

def admits (topic : Topic) (payload : Payload) (g : Gateway σ) : Bool :=
  -- Only messages from the realm of control are verified.
  !brokerApps.contains topic.app &&
    (!topic.isControl g.options || g.verifier.all fun verify => verify topic payload)

def arrive (topic : String) (bytes : List UInt8) (qos : Qos) (retained : Bool) (g : Gateway σ) :
    Gateway σ :=
  let topic := Topic.parse g.options topic
  let payload := g.options.decodePayload bytes
  if g.admits topic payload then
    let isRequest := topic.isControl g.options && !topic.isReply g.options
    let g := if isRequest then g.dispatch topic payload else g
    (g.subscriptions.recipients g.options topic.full).foldl
      (fun g name => g.note (.told name ⟨topic, payload, qos, retained⟩)) g
  else g

end Uplink.Gateway
