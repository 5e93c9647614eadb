import Uplink.Gateway.Basic

/-!
# Applications and those who listen

While a gateway is connected, a change of its applications makes it announce them anew, and a
change of its options or of its platform makes it announce itself. This is done later, and once
for several changes.
-/

namespace Uplink.Gateway

variable {σ : Type} [Transport σ]

def applicationsChanged (g : Gateway σ) : Gateway σ :=
  if g.isConnected then g.schedule .appList else g

/-- Have a handler answer the requests to an application, in place of the one it has. -/
def registerHandler (app : String) (handler : Handler) (g : Gateway σ) : Gateway σ :=
  { g with handlers := g.handlers.insert app handler }.applicationsChanged

/-- Take the handler of an application away. Gives whether there was one. -/
def unregisterHandler (app : String) (g : Gateway σ) : Bool × Gateway σ :=
  if g.handlers.contains app then
    (true, { g with handlers := g.handlers.erase app }.applicationsChanged)
  else (false, g)

def registerApplication (app : String) (g : Gateway σ) : Gateway σ :=
  if g.applications.contains app then g
  else { g with applications := g.applications.insert app () }.applicationsChanged

/-- Take an application away that has no handler. Gives whether there was one. -/
def unregisterApplication (app : String) (g : Gateway σ) : Bool × Gateway σ :=
  if g.applications.contains app then
    (true, { g with applications := g.applications.erase app }.applicationsChanged)
  else (false, g)

def registerSubscriber (r : SubscriptionRecord) (subscriber : String) (g : Gateway σ) : Gateway σ :=
  let (isNew, subscriptions) := g.subscriptions.add r subscriber
  let g := { g with subscriptions }
  -- What fails here is tried again on the next connection, as the record is kept.
  if isNew && g.isConnected then g.subscribeTo r.filter r.qos else g

def unregisterSubscriber (subscriber : String) (g : Gateway σ) : Gateway σ :=
  let (emptied, subscriptions) := g.subscriptions.remove subscriber
  let g := { g with subscriptions }
  if g.isConnected then emptied.foldl (fun g r => g.unsubscribeFrom r.filter) g else g

/-- Have a listener told about connections. Gives whether it is new. -/
def addConnectionListener (l : Listener) (g : Gateway σ) : Bool × Gateway σ :=
  let (isNew, set) := g.connectionListeners.add l
  (isNew, { g with connectionListeners := set })

def removeConnectionListener (l : Listener) (g : Gateway σ) : Bool × Gateway σ :=
  let (was, set) := g.connectionListeners.remove l
  (was, { g with connectionListeners := set })

/-- Have a listener told about deliveries. Gives whether it is new. -/
def addDeliveryListener (l : Listener) (g : Gateway σ) : Bool × Gateway σ :=
  let (isNew, set) := g.deliveryListeners.add l
  (isNew, { g with deliveryListeners := set })

def removeDeliveryListener (l : Listener) (g : Gateway σ) : Bool × Gateway σ :=
  let (was, set) := g.deliveryListeners.remove l
  (was, { g with deliveryListeners := set })

/-- The options want a platform event to be announced. -/
def announces (o : Options) : PlatformEvent → Bool
  | .positionLocked => o.republishOnPosition
  | .tamperDetected => o.republishOnTamper
  | .packageInstalled _ | .packageUninstalled _ => true

def platformEvent (event : PlatformEvent) (g : Gateway σ) : Gateway σ :=
  if g.isConnected && announces g.options event then g.schedule .birth else g

def configure (options : Options) (g : Gateway σ) : Except CloudError (Gateway σ) :=
  match options.validate with
  | .error fault => .error (.config (.options fault))
  | .ok () =>
    -- The pool has the workers that it was made with.
    if options.dispatchWorkers = g.pool.size then
      let g := { g with options }
      .ok (if g.isConnected then (g.schedule .birth).reconcile false else g)
    else
      .error (.config (.options (.workersFixed g.pool.size options.dispatchWorkers)))

end Uplink.Gateway
