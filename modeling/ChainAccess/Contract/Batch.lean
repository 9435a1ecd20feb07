import ChainAccess.Contract.Binding
-- One method of a contract read for many argument lists at once. All calls go
-- out in one batch, and either every one has a result or the batch has failed.

namespace ChainAccess.Batch

open Workflow

variable {σ : Type}

/-- The function that every call of a batch goes through: the first argument
list picks it. -/
def resolve (i : Abi.Interface) (method : String) (argLists : List (List Abi.Value)) :
    Except RpcError Abi.Function :=
  i.find method (argLists.head?.map List.length)

/-- A call of the function for each argument list; the first list that cannot
be encoded fails the batch. -/
def elements (f : Abi.Function) (contract : Address) (argLists : List (List Abi.Value)) :
    Except RpcError (List Rpc.BatchElement) :=
  argLists.mapM fun args => (f.callData args).map (Rpc.BatchElement.ethCall contract)

/-- The first element that has failed, with its place. -/
def firstError? (calls : List Rpc.BatchElement) : Option (Nat × String) :=
  calls.zipIdx.findSome? fun (call, i) => call.error.map fun e => (i, e)

/-- A failure of the element at a place. -/
def elementText (i : Nat) (words : String) : String :=
  "element " ++ toString i ++ ": " ++ words

/-- Sends the batch once; an element that fails, fails the attempt. -/
def sendOnce (t : Transport σ) (calls : List Rpc.BatchElement) :
    Workflow σ RpcError (List Rpc.BatchElement) := do
  let calls ← t.sendBatchElements calls
  match firstError? calls with
  | some (i, e) => fail (.batch (elementText i e))
  | none => pure calls

/-- Sends the batch under the policy of attempts, whole every time. A batch
without calls is not sent. -/
def perform (h : Handle σ) (calls : List Rpc.BatchElement) :
    Workflow σ RpcError (List Rpc.BatchElement) :=
  if calls.isEmpty then pure calls else h.retrying (sendOnce h.transport calls)

/-! ## Results -/

/-- The words for a text that is no byte string. -/
def hexWords : Hex.Fault → String
  | .oddLength => "Odd number of digits"
  | .badDigit c i => "Invalid character " ++ Quoted.char c ++ " at position " ++ toString i

/-- The bytes of a payload, every leading marker dropped. What is no plain
character is looked at byte by byte. -/
def payloadBytes (payload : String) : Except Hex.Fault Bytes :=
  let cs := Hex.stripMarkers payload.toList
  Hex.decode ((Utf8.encode (String.ofList cs)).map fun b => Char.ofNat b.toNat)

/-- The values of the element at a place. -/
def resultOf (f : Abi.Function) (i : Nat) (call : Rpc.BatchElement) :
    Except RpcError (List Abi.Value) :=
  match call.error, call.result with
  | some e, _ => .error (.batch (elementText i e))
  | none, none | none, some .null => .error .emptyBatchResult
  | none, some (.str payload) =>
    if payload.isEmpty then .error .emptyBatchResult
    else
      match payloadBytes payload with
      | .error fault => .error (.decoding (elementText i (hexWords fault)))
      | .ok bs =>
        if bs.isEmpty then .error (.decoding (elementText i "result decodes to zero bytes"))
        else f.returned bs
  | none, some other =>
    .error (.decoding (elementText i ("result is not a string: " ++ other.normal.compact)))

/-- The values of every element in order, or the first failure. -/
def results (f : Abi.Function) (calls : List Rpc.BatchElement) :
    Except RpcError (List (List Abi.Value)) :=
  calls.zipIdx.mapM fun (call, i) => resultOf f i call

/-- Reads a method once for each argument list; the results come in the order
of the lists. -/
def call (h : Handle σ) (i : Abi.Interface) (contract : Address) (method : String)
    (argLists : List (List Abi.Value)) : Workflow σ RpcError (List (List Abi.Value)) := do
  let f ← ofExcept (resolve i method argLists)
  let calls ← ofExcept (elements f contract argLists)
  let calls ← perform h calls
  ofExcept (results f calls)

end ChainAccess.Batch
