import ChainAccess.Pool.Run
import ChainAccess.Scripted.Queue
import ChainAccess.Url.Basic
-- A wire that answers from scripts, one for each URL: checks and updates by
-- the URL as the pool knows it, requests by the URL in its one form. Without
-- a script a check passes and a request gets no answer.

namespace ChainAccess.Scripted

/-- An entry of a script: an answer and how long it takes. -/
structure Delayed (α : Type) where
  delay : Nat
  answer : α

/-- The scripts of a wire. -/
structure WireScripts where
  checks : Scripts (Delayed (Except RpcError Unit))
  updates : Scripts (Delayed (Except RpcError Unit))
  posts : Scripts (Delayed Http.Answer)

/-- The wire of the scripts. -/
def wire : Pool.Wire WireScripts where
  check url w :=
    match w.checks.take url with
    | (some e, left) => ⟨e.answer, e.delay, { w with checks := left }⟩
    | (none, _) => ⟨.ok (), 0, w⟩
  update url w :=
    match w.updates.take url with
    | (some e, left) => ⟨e.answer, e.delay, { w with updates := left }⟩
    | (none, _) => ⟨.ok (), 0, w⟩
  post url _ w :=
    match Url.ofString url with
    | .error _ => ⟨.failed "builder error", 0, w⟩
    | .ok u =>
      match w.posts.take u.text with
      | (some e, left) => ⟨e.answer, e.delay, { w with posts := left }⟩
      | (none, _) => ⟨.failed "no answer", 0, w⟩

end ChainAccess.Scripted
