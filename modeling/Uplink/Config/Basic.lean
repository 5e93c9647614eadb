import Uplink.Device
import Uplink.Options
import Uplink.Url.Address

/-!
# Gateway configuration

Everything that a gateway is told before it starts: the options of its connection, the broker and
what is known about its device. `validate` says which configurations it can start with.
-/

namespace Uplink

structure BrokerSection where
  url : String
  clientId : String
  account : String
  /-- The environment variable that holds the user's name. -/
  usernameEnv : Option String := none
  /-- The environment variable that holds the password. -/
  passwordEnv : Option String := none
  keepAliveSecs : Nat := 30
  cleanSession : Bool := true
deriving DecidableEq, Repr, Inhabited

structure Config where
  options : Options := {}
  broker : BrokerSection
  device : DeviceSection := {}
deriving DecidableEq, Repr, Inhabited

inductive AddressFault where
  | unreadable (url : String) (cause : Url.Error)
  | unsupportedScheme (scheme : String)
  | noHost (url : String)
  | described (text : String)
deriving DecidableEq, Repr

def AddressFault.message : AddressFault → String
  | .unreadable url cause => s!"{url}: {cause.message}"
  | .unsupportedScheme scheme => s!"unsupported scheme '{scheme}'"
  | .noHost url => s!"missing host in '{url}'"
  | .described text => text

/-- Why a name cannot be a level of topics. -/
inductive LevelFault where
  | malformed (setting value : String)
  | described (text : String)
deriving DecidableEq, Repr

def LevelFault.message : LevelFault → String
  | .malformed setting value =>
    s!"{setting} '{value}' must match pattern [a-zA-Z0-9._:-]+"
  | .described text => text

inductive ConfigError where
  | unreadable
  | syntactic
  | address (fault : AddressFault)
  | level (fault : LevelFault)
  | options (fault : OptionsFault)
deriving DecidableEq, Repr

def ConfigError.message : ConfigError → String
  | .unreadable => "Failed to read config file"
  | .syntactic => "Failed to parse TOML"
  | .address fault => s!"Invalid broker URL: {fault.message}"
  | .level fault => s!"Invalid client id format: {fault.message}"
  | .options fault => s!"Invalid configuration: {fault.message}"

namespace Config

/-- The characters of which client ids and account names consist. They become levels of topics, so
there are neither separators nor wildcards among them. -/
def isLevelChar (c : Char) : Bool :=
  c.isAlphanum || c == '.' || c == '_' || c == '-' || c == ':'

def levelFault? (setting value : String) : Option LevelFault :=
  if value.isEmpty || !value.toList.all isLevelChar then some (.malformed setting value) else none

def schemes : List String := ["mqtt", "tcp", "mqtts", "ssl"]

/-- The fault of the address of a broker. -/
def addressFault? (url : String) : Option AddressFault :=
  match Url.parse url with
  | .error cause => some (.unreadable url cause)
  | .ok parsed =>
    if parsed.scheme ∉ schemes then some (.unsupportedScheme parsed.scheme)
    else if parsed.host.isNone then some (.noHost url)
    else none

def fault? (c : Config) : Option ConfigError :=
  (c.options.fault?.map .options) <|>
    ((levelFault? "client_id" c.broker.clientId).map .level) <|>
    ((levelFault? "account_name" c.broker.account).map .level) <|>
    ((addressFault? c.broker.url).map .address)

/-- Refuse a configuration that the gateway cannot start with. -/
def validate (c : Config) : Except ConfigError Unit :=
  match c.fault? with
  | some fault => .error fault
  | none => .ok ()

end Config

abbrev Environment := SortedMap String

/-- The value of the variable that a setting names. -/
def Environment.named? (env : Environment) (name : Option String) : Option String :=
  name.bind env.get?

end Uplink
