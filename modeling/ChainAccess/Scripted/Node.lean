import ChainAccess.Scripted.Queue
import ChainAccess.Transport
-- A node that answers from scripts, one for each method, one for batches and
-- one each for connecting and for reports. Every report moves it to its next
-- URL.

namespace ChainAccess.Scripted

/-- What an entry of a script answers. -/
inductive Answer where
  /-- The transport fails. -/
  | fails (e : RpcError)
  /-- The whole answer as it is. -/
  | raw (answer : Json)
  /-- An answer with this error. -/
  | error (error : Json)
  /-- An answer with this result. -/
  | result (result : Json)
  /-- A result for each request of a batch, backwards if so told. -/
  | results (results : List Json) (backwards : Bool)

/-- An entry of a script: an answer and how long it takes. -/
structure Entry where
  delay : Nat
  answer : Answer

/-- A node that answers from scripts. -/
structure Node where
  urls : List String
  reports : Nat
  methods : Scripts Entry
  batches : List Entry
  connects : List (Option RpcError)
  reportAnswers : List (Option RpcError)

namespace Node

/-- The URL in use: each report moves on to the next one. -/
def url (n : Node) : String := (n.urls[n.reports % n.urls.length]?).getD ""

/-- An answer that takes its time; none when too little is left for it. -/
def timed {α : Type} (delay : Nat) (left : Option Nat) (answer : Except RpcError α) (n : Node) :
    Reply Node α :=
  if left.any (· < delay) then ⟨none, delay, n⟩ else ⟨some answer, delay, n⟩

/-- The member of a request with this name. -/
def member (request : Json) (name : String) : Json := (request.get? name).getD .null

/-- An answer to a request. -/
def answerTo (request : Json) (name : String) (v : Json) : Json :=
  .obj [("jsonrpc", .str "2.0"), ("id", member request "id"), (name, v)]

/-- The node after its next answer to a method. -/
def send (request : Json) (left : Option Nat) (n : Node) : Reply Node Json :=
  let method := ((request.get? "method").bind Json.asStr?).getD ""
  match n.methods.take method with
  | (none, _) => ⟨some (.error (.internal ("unscripted " ++ method))), 0, n⟩
  | (some entry, methods) =>
    timed entry.delay left
      (match entry.answer with
      | .fails e => .error e
      | .raw v => .ok v
      | .error v => .ok (answerTo request "error" v)
      | .result v => .ok (answerTo request "result" v)
      | .results vs _ => .ok (.arr vs)) { n with methods := methods }

/-- The node after its next answer to a batch. -/
def sendBatch (requests : List Json) (left : Option Nat) (n : Node) : Reply Node (List Json) :=
  match next? n.batches with
  | none => ⟨some (.error (.internal "unscripted batch")), 0, n⟩
  | some (entry, batches) =>
    timed entry.delay left
      (match entry.answer with
      | .fails e => .error e
      | .raw (.arr vs) => .ok vs
      | .raw v => .ok [v]
      | .error v => .ok [.obj [("error", v)]]
      | .result v => .ok [v]
      | .results vs backwards =>
        let answers := (requests.zip vs).map fun (request, v) => answerTo request "result" v
        .ok (if backwards then answers.reverse else answers)) { n with batches := batches }

/-- The next answer of a script of failures; an empty script never fails. -/
def failure (script : List (Option RpcError)) : Except RpcError Unit × List (Option RpcError) :=
  match next? script with
  | some (some e, left) => (.error e, left)
  | some (none, left) => (.ok (), left)
  | none => (.ok (), [])

/-- The node as a transport. -/
def transport : Transport Node where
  url := url
  connect _ n :=
    let (answer, left) := failure n.connects
    ⟨some answer, 0, { n with connects := left }⟩
  send := send
  sendBatch := sendBatch
  report _ _ n :=
    let (answer, left) := failure n.reportAnswers
    ⟨some answer, 0, { n with reports := n.reports + 1, reportAnswers := left }⟩

end Node

end ChainAccess.Scripted
