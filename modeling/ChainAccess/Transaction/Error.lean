import ChainAccess.Account.Error
import ChainAccess.Rpc.Error
-- What can go wrong while a transaction is prepared, sent and confirmed.

namespace ChainAccess

/-- A failure of a transaction. -/
inductive TransactionError where
  | account (e : AccountError)
  | rpc (e : RpcError)
  | gasEstimation (message : String)
  | signing (message : String)
  | unconfirmed (hash : Hash) (polls : UInt32)
  deriving DecidableEq, Repr

/-- The words for a failure. -/
def TransactionError.message : TransactionError → String
  | .account e => e.message
  | .rpc e => e.message
  | .gasEstimation m => "Gas estimation failed: " ++ m
  | .signing m => "Signing failed: " ++ m
  | .unconfirmed hash polls =>
    "Transaction " ++ hash.text ++ " not mined after " ++ toString polls.toNat ++ " polls"

end ChainAccess
