import ChainAccess.Http.Status
import ChainAccess.Rpc.Error
import Mathlib.Data.List.Infix
import Mathlib.Tactic.Common
-- Failures told apart by their words. A pattern counts wherever it stands in the
-- text of a failure, in any case; the reason that goes with the status of a failing
-- gateway always holds one of the patterns, whatever body follows it.

namespace ChainAccess

/-- A pattern is found exactly where it is a part of the text. -/
theorem Text.contains_iff {pattern cs : List Char} :
    Text.contains pattern cs = true ↔ pattern <:+: cs := by
  induction cs with
  | nil => simp [contains]
  | cons c rest ih =>
    rw [contains, Bool.or_eq_true, List.isPrefixOf_iff_prefix, ih, List.infix_cons_iff]

theorem Text.lower_append (as bs : List Char) :
    Text.lower (as ++ bs) = Text.lower as ++ Text.lower bs := List.flatMap_append

namespace RpcError

theorem isGateway_iff {e : RpcError} : e.isGateway = true ↔
    ∃ words ∈ gatewayWords, words.toList <:+: Text.lower e.message.toList := by
  simp only [isGateway, Text.mentions, List.any_eq_true, Text.contains_iff]

/-- What follows the words of a gateway does not matter. -/
theorem isGateway_of_head {e : RpcError} (head words : String) {body : String}
    (hmessage : e.message = head ++ body) (hwords : words ∈ gatewayWords)
    (hin : words.toList <:+: Text.lower head.toList) : e.isGateway = true := by
  refine isGateway_iff.mpr ⟨words, hwords, ?_⟩
  rw [hmessage, String.toList_append, Text.lower_append]
  exact hin.trans (List.prefix_append _ _).isInfix

/-- The statuses of a failing gateway. -/
def gatewayStatuses : List Nat := [502, 503, 504]

/-- An answer with the status of a failing gateway is a failure of the gateway,
whatever its body. -/
theorem isGateway_of_status {status : Nat} (hstatus : status ∈ gatewayStatuses) (body : String) :
    (RpcError.http status (Http.statusText status body)).isGateway = true := by
  simp only [gatewayStatuses, List.mem_cons, List.not_mem_nil, or_false] at hstatus
  rcases hstatus with rfl | rfl | rfl
  · exact isGateway_of_head "HTTP 502 Bad Gateway: " "502 bad gateway" rfl (by decide) (by decide)
  · exact isGateway_of_head "HTTP 503 Service Unavailable: " "503 service unavailable" rfl
      (by decide) (by decide)
  · exact isGateway_of_head "HTTP 504 Gateway Timeout: " "504 gateway timeout" rfl (by decide)
      (by decide)

end RpcError

end ChainAccess
