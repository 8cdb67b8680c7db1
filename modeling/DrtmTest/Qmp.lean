/-
Lean model of the QMP client (`drtmtest/qmp_client.py`).

A connection is the list of chunks its successive `recv` calls return: the first is taken for the greeting, then one
reply is read for `qmp_capabilities` and one for the command. A list that has run out is a server that stays silent, on
which `recv` times out; an empty chunk is a closed connection.

- `recvLoop`: a reply is whatever chunks it takes until what was read ends in a newline and mentions a return or an error.
- `parseReply`: one JSON text a line. More than one makes the `{"ack": .., "event": ..}` pair.
- `execute`: the `return` value of one command.
What Python raises is an error value. `limits` is how long an integer and how deep a value `json.loads` takes.
-/
import DrtmTest.Core.Find
import DrtmTest.Core.Json
import DrtmTest.Core.Text

namespace DrtmTest.Qmp

open DrtmTest.Find DrtmTest.Text

inductive QmpError where
  /-- the socket is refused, reset or silent for the timeout -/
  | osError
  | unicodeDecodeError
  /-- what `json.loads` raises of the first line that is wrong -/
  | json (e : JsonError)
  | indexError
  | keyError (key : String)
  | typeError
  /-- the command and the `desc` of its error -/
  | runtimeError (command : String) (desc : Json)

/-- `pat in data` -/
def contains (pat data : Bytes) : Bool := (find pat data).isSome

def returnMark : Bytes := encode "\"return\""

def errorMark : Bytes := encode "\"error\""

/-- what ends the reading of one reply -/
def done (data : Bytes) : Bool := data.getLast? = some 10 && (contains returnMark data || contains errorMark data)

/-- the `while` of `_send`: the bytes of one reply and the chunks not yet received, `none` for a `recv` that times out -/
def recvLoop : Bytes → List Bytes → Option (Bytes × List Bytes)
  | data, [] => if done data then some (data, []) else none
  | data, chunk :: chunks =>
    if done data then some (data, chunk :: chunks)
    else if chunk = [] then some (data, chunks)
    else recvLoop (data ++ chunk) chunks

/-- `line.strip()` is not empty -/
def notBlank (line : List Char) : Bool := line.any fun c => !isSpace c

def jsonLines (text : List Char) : List (List Char) := (splitlines text).filter notBlank

/-- what `_send` makes of the bytes of one reply -/
def parseReply (limits : Json.Limits) (data : Bytes) : Except QmpError Json :=
  match decodeUtf8 data with
  | none => .error .unicodeDecodeError
  | some text =>
    match (jsonLines text).mapM (Json.loads limits) with
    | .error e => .error (.json e)
    | .ok [] => .error .indexError
    | .ok [o] => .ok o
    | .ok (o₁ :: o₂ :: _) => .ok (.obj [("ack", o₁), ("event", o₂)])

/-- `_send` -/
def send (limits : Json.Limits) (chunks : List Bytes) : Except QmpError (Json × List Bytes) :=
  match recvLoop [] chunks with
  | none => .error .osError
  | some (data, rest) => (parseReply limits data).map fun o => (o, rest)

/-- `key in response` -/
def hasKey (key : String) : Json → Except QmpError Bool
  | .obj fields => .ok (fields.lookup key).isSome
  | .arr items => .ok (items.any fun v => match v with | .str s => s = key | _ => false)
  | .str s => .ok (find key.toList s.toList).isSome
  | _ => .error .typeError

/-- `response[key]` -/
def getItem (key : String) : Json → Except QmpError Json
  | .obj fields =>
    match fields.lookup key with
    | some v => .ok v
    | none => .error (.keyError key)
  | _ => .error .typeError

/-- `_send_cmd` -/
def sendCmd (limits : Json.Limits) (command : String) : List Bytes → Except QmpError Json
  | [] => .error .osError
  | _greeting :: chunks => do
    let (_, chunks) ← send limits chunks
    let (response, _) ← send limits chunks
    if ← hasKey "error" response then
      let desc ← getItem "desc" (← getItem "error" response)
      throw (.runtimeError command desc)
    return response

/-- `execute`: runs one command and returns its `return` value -/
def execute (limits : Json.Limits) (command : String) (chunks : List Bytes) : Except QmpError Json := do
  getItem "return" (← sendCmd limits command chunks)

end DrtmTest.Qmp
