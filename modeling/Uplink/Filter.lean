import Uplink.Options

/-!
# Topic filters

A filter is a topic in which a level may stand for any level and the last level for all further
ones. The filters that subscribers name contain placeholders for the account and the client, which
stand for any level here.
-/

namespace Uplink.Filter

def anyLevel : String := "+"

/-- A list of filter levels covers a list of topic levels. The wildcard level covers all levels
from its place on, also if there are none, but only if it is the last. -/
def covers (wildcard : String) : List String → List String → Bool
  | [], [] => true
  | [], _ :: _ => false
  | f :: fs, [] => f == wildcard && fs.isEmpty
  | f :: fs, t :: ts =>
    if f == wildcard then fs.isEmpty
    else (f == anyLevel || f == t) && covers wildcard fs ts

def matchesTopic (o : Options) (filter topic : String) : Bool :=
  covers o.wildcard (Levels.split o.separator filter) (Levels.split o.separator topic)

/-- The filter with any level in the place of each placeholder. -/
def localize (o : Options) (filter : String) : String :=
  Levels.join o.separator ((Levels.split o.separator filter).map fun level =>
    if level = o.accountToken ∨ level = o.clientToken then anyLevel else level)

/-- The filter for everything that is addressed to this gateway in the realm of control. -/
def ofGateway (o : Options) : String :=
  Levels.join o.separator [o.controlPrefix, o.accountToken, o.clientToken, o.wildcard]

end Uplink.Filter
