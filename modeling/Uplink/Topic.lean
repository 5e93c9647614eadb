import Uplink.Options

/-!
# Topics

A topic has up to four leading levels, an account, a client, an application and whatever follows,
in front of which a control level may stand. `Topic.parse` reads any text, with empty parts where
levels are missing, and `Options.topic` makes the topics that leave. Those name the account and
the client by placeholders.
-/

namespace Uplink

/-- What a control request asks for. -/
inductive Method where
  | get
  | put
  | post
  | del
  | exec
deriving DecidableEq, Repr

namespace Method

def name : Method → String
  | get => "GET"
  | put => "PUT"
  | post => "POST"
  | del => "DEL"
  | exec => "EXEC"

def ofName? (name : String) : Option Method :=
  [get, put, post, del, exec].find? fun m => m.name == name

@[simp] theorem ofName?_name (m : Method) : ofName? m.name = some m := by
  cases m <;> decide

end Method

/-- The level that marks an answer to a control request. -/
def replyLevel : String := "REPLY"

structure Topic where
  full : String
  /-- The control level, or another first level that starts with a dollar sign. -/
  realm : Option String := none
  account : String := ""
  client : String := ""
  app : String := ""
  /-- Everything after the application. -/
  subTopic : String := ""
  /-- The last level of a control topic whose sub-topic has at least two. -/
  requestId : Option String := none
deriving DecidableEq, Repr, Inhabited

/-- The first level of a text and what follows the separator after it. -/
def takeLevel (separator text : String) : Option String × String :=
  -- A text that is empty has no level at all, not an empty one.
  if text.isEmpty then (none, text)
  else match Levels.cut separator text with
    | some (level, rest) => (some level, rest)
    | none => (some text, "")

namespace Topic

def isControl (t : Topic) (o : Options) : Bool := t.realm == some o.controlPrefix

/-- The levels of the sub-topic. There is always at least one. -/
def subLevels (t : Topic) (o : Options) : List String := Levels.split o.separator t.subTopic

def isReply (t : Topic) (o : Options) : Bool := (t.subLevels o).head? == some replyLevel

/-- What a request asks for: the first level of the sub-topic. -/
def method (t : Topic) (o : Options) : Option Method := (t.subLevels o).head?.bind Method.ofName?

/-- What a request is about. -/
def resource (t : Topic) (o : Options) : List String :=
  let levels := ((t.subLevels o).drop 1).filter fun level => !level.isEmpty
  -- The request id is the last level of the sub-topic.
  if t.requestId.isSome then levels.dropLast else levels

/-- The first level is one that stands in front of the account. -/
def hasRealm (o : Options) (full : String) : Bool :=
  match Levels.split o.separator full with
  | first :: _ => first == o.controlPrefix || first.toList.head? == some '$'
  | [] => false

/-- Read a topic. The empty text and the bare wildcard have no parts. -/
def parse (o : Options) (full : String) : Topic :=
  if full.isEmpty ∨ full = o.wildcard then { full }
  else
    let (realm, rest) :=
      if hasRealm o full then takeLevel o.separator full else (none, full)
    let (account, rest) := takeLevel o.separator rest
    let (client, rest) := takeLevel o.separator rest
    let (app, subTopic) := takeLevel o.separator rest
    -- Levels that are missing are empty.
    let t : Topic :=
      { full, realm, account := account.getD "", client := client.getD "", app := app.getD "",
        subTopic }
    let levels := t.subLevels o
    { t with requestId :=
        if t.isControl o ∧ 2 ≤ levels.length then levels.getLast? else none }

end Topic

namespace Options

/-- The topic of an application. The device is this gateway unless another one is named. -/
def topic (o : Options) (device : Option String) (app appTopic : String) (control : Bool) :
    String :=
  Levels.join o.separator
    ((if control then [o.controlPrefix] else []) ++
      [o.accountToken, device.getD o.clientToken, app] ++
      (if appTopic.isEmpty then [] else [appTopic]))

end Options

end Uplink
