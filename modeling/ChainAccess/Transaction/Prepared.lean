import ChainAccess.Amount.Quantity
import ChainAccess.Crypto.Secp256k1
import ChainAccess.Transaction.Error
import ChainAccess.Transaction.Plan
import ChainAccess.Transaction.Rlp
-- Transactions ready to be signed. The signature binds the chain; the hash of
-- the signed transaction is its name.

namespace ChainAccess

open Secp256k1 (PrivateKey Signature)

/-- Everything needed to sign one transaction. -/
structure PreparedTransaction where
  sender : Address
  nonce : UInt64
  gasPrice : Word
  gasLimit : UInt64
  value : Word
  chainId : UInt64
  key : PrivateKey

namespace PreparedTransaction

/-- The transaction as a log shows it. -/
def text (t : PreparedTransaction) : String :=
  TransactionPlan.recordText "TransactOpts"
    [("from", t.sender.text), ("nonce", toString t.nonce.toNat),
     ("gas_price", toString t.gasPrice.toNat), ("gas_limit", toString t.gasLimit.toNat),
     ("value", toString t.value.toNat), ("chain_id", toString t.chainId.toNat)] true

/-- The gas price that is signed: prices have 128 bits there. -/
def signedGasPrice (t : PreparedTransaction) : Nat := t.gasPrice.toNat128Sat

/-- The request of a call of `target` with the data, in JSON. -/
def requestJson (t : PreparedTransaction) (target : Address) (data : Bytes) : Json :=
  .obj [("from", t.sender.toJson), ("to", target.toJson),
    ("gasPrice", .str (Quantity.text t.signedGasPrice)), ("gas", Quantity.ofUInt64 t.gasLimit),
    ("value", Quantity.ofWord t.value), ("input", data.toJson),
    ("nonce", Quantity.ofUInt64 t.nonce), ("chainId", Quantity.ofUInt64 t.chainId)]

/-- The fields of a call of `target` with the data, without what the signature
adds. -/
def fields (t : PreparedTransaction) (target : Address) (data : Bytes) : List Bytes :=
  [Rlp.number t.nonce.toNat, Rlp.number t.signedGasPrice, Rlp.number t.gasLimit.toNat,
   Rlp.string (Bytes.ofNat 20 target.value.toNat), Rlp.number t.value.toNat, Rlp.string data]

/-- The hash that is signed. -/
def signingHash (t : PreparedTransaction) (target : Address) (data : Bytes) : Hash :=
  let chain := [Rlp.number t.chainId.toNat, Rlp.number 0, Rlp.number 0]
  ⟨BitVec.ofNat 256 (keccak256 (Rlp.list (t.fields target data ++ chain))).toNat⟩

/-- The signed transaction. -/
def withSignature (t : PreparedTransaction) (target : Address) (data : Bytes) (s : Signature) :
    Bytes :=
  let v := 35 + 2 * t.chainId.toNat + s.odd.toNat
  Rlp.list (t.fields target data ++ [Rlp.number v, Rlp.number s.r, Rlp.number s.s])

/-- Signs a call of `target` with the data: the hash of the signed transaction, and
the transaction. -/
def sign (t : PreparedTransaction) (target : Address) (data : Bytes) :
    Except TransactionError (Hash × Bytes) :=
  match t.key.sign (t.signingHash target data) with
  | none => .error (.signing "no signature found")
  | some s =>
    let raw := t.withSignature target data s
    .ok (⟨BitVec.ofNat 256 (keccak256 raw).toNat⟩, raw)

end PreparedTransaction

end ChainAccess
