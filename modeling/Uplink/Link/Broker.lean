import Uplink.Config.Basic
import Uplink.Link.Error

/-!
# The broker

What a link must know about its broker, taken from the configuration, and what the broker is told
in place of the placeholders in topics.
-/

namespace Uplink.Link

structure Broker where
  host : String
  port : Nat
  tls : Bool
  clientId : String
  keepAliveSecs : Nat
  cleanStart : Bool
  /-- Name and password of the user. -/
  credentials : Option (String × String)
  maxPacketSize : Nat
deriving DecidableEq, Repr

namespace Broker

def tlsSchemes : List String := ["mqtts", "ssl"]

def usualPort (tls : Bool) : Nat := if tls then 8883 else 1883

def minKeepAliveSecs : Nat := 5

def maxPacketBytes : Nat := 256 * 1024

/-- The user whose name the environment holds, with an empty password if it holds none. -/
def credentialsFrom (env : Environment) (b : BrokerSection) : Option (String × String) :=
  (env.named? b.usernameEnv).map fun user => (user, (env.named? b.passwordEnv).getD "")

def ofSection (env : Environment) (b : BrokerSection) : Except LinkError Broker :=
  match (Url.parse b.url).toOption.bind fun url => url.host.map fun host => (url, host) with
  | none => .error (.brokerAddress b.url)
  | some (url, host) =>
    let tls := tlsSchemes.contains url.scheme
    .ok {
      host, tls
      port := url.port.getD (usualPort tls)
      clientId := b.clientId
      keepAliveSecs := max b.keepAliveSecs minKeepAliveSecs
      cleanStart := b.cleanSession
      credentials := credentialsFrom env b
      maxPacketSize := maxPacketBytes }

end Broker

/-- A topic or filter with the account and the client in the place of their placeholders. -/
def substitute (o : Options) (b : BrokerSection) (topic : String) : String :=
  Levels.join o.separator ((Levels.split o.separator topic).map fun level =>
    if level = o.accountToken then b.account
    else if level = o.clientToken then b.clientId
    else level)

end Uplink.Link
