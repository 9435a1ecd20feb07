import ChainAccess.Proofs.Transaction.Rlp
import ChainAccess.Transaction.Prepared
-- What stands in the bytes of a signed transaction: everything that was
-- prepared, the call, and the signature with the chain that it binds.

namespace ChainAccess

open Secp256k1 (Signature)

/-- A transaction as its bytes tell it. -/
structure SignedTransaction where
  nonce : Nat
  gasPrice : Nat
  gasLimit : Nat
  target : Address
  value : Nat
  data : Bytes
  chainId : Nat
  signature : Signature

/-- Reads a signed transaction; the number before the signature tells the chain
and the oddness of the signature. -/
def SignedTransaction.ofBytes? (raw : Bytes) : Option SignedTransaction :=
  match Rlp.readList? 9 raw with
  | some [nonce, gasPrice, gasLimit, target, value, data, chain, r, s] =>
    if chain.toNat < 35 then none
    else (Address.ofBytes? target).map fun target =>
      { nonce := nonce.toNat, gasPrice := gasPrice.toNat, gasLimit := gasLimit.toNat,
        target, value := value.toNat, data, chainId := (chain.toNat - 35) / 2,
        signature := ⟨r.toNat, s.toNat, (chain.toNat - 35) % 2 == 1⟩ }
  | _ => none

theorem Address.ofBytes?_ofNat (a : Address) :
    ofBytes? (Bytes.ofNat 20 a.value.toNat) = some a := by
  have hfit : a.value.toNat < Nat.pow 256 20 := a.value.isLt
  rw [ofBytes?, if_pos (Bytes.length_ofNat ..), Bytes.toNat_ofNat, Nat.mod_eq_of_lt hfit,
    BitVec.ofNat_toNat, BitVec.setWidth_eq]

namespace PreparedTransaction

variable {t : PreparedTransaction} {target : Address} {data raw : Bytes} {s : Signature}
  {hash : Hash}

/-! ## Signing -/

-- An equation of functions: held against `t.sign target data` itself, the match
-- would have the signature computed.
theorem sign_eq : sign = fun t target data =>
    match t.key.sign (t.signingHash target data) with
    | none => .error (.signing "no signature found")
    | some s =>
      let raw := t.withSignature target data s
      .ok (⟨BitVec.ofNat 256 (keccak256 raw).toNat⟩, raw) := by
  delta sign
  rfl

/-- What is signed is written with a signature of its hash. -/
theorem exists_signature_of_sign (hsign : t.sign target data = .ok (hash, raw)) :
    ∃ s, t.key.sign (t.signingHash target data) = some s ∧
      raw = t.withSignature target data s := by
  have heq := congrFun (congrFun (congrFun sign_eq t) target) data
  rw [heq] at hsign
  cases hs : t.key.sign (t.signingHash target data) with
  | none =>
    rw [hs] at hsign
    cases hsign
  | some s =>
    rw [hs] at hsign
    exact ⟨s, rfl, (Prod.mk.inj (Except.ok.inj hsign)).2.symm⟩

/-! ## Reading -/

/-- The strings of a signed transaction. -/
def parts (t : PreparedTransaction) (target : Address) (data : Bytes) (s : Signature) :
    List Bytes :=
  [Rlp.bytesOf t.nonce.toNat, Rlp.bytesOf t.signedGasPrice, Rlp.bytesOf t.gasLimit.toNat,
   Bytes.ofNat 20 target.value.toNat, Rlp.bytesOf t.value.toNat, data,
   Rlp.bytesOf (35 + 2 * t.chainId.toNat + s.odd.toNat), Rlp.bytesOf s.r, Rlp.bytesOf s.s]

theorem withSignature_eq : t.withSignature target data s =
    Rlp.list ((t.parts target data s).map Rlp.string) := rfl

/-- A signed transaction reads back, unless it is too long to be written. -/
theorem ofBytes?_withSignature (hlength : (t.withSignature target data s).length < UInt64.size) :
    SignedTransaction.ofBytes? (t.withSignature target data s) =
      some ⟨t.nonce.toNat, t.signedGasPrice, t.gasLimit.toNat, target, t.value.toNat, data,
        t.chainId.toNat, s⟩ := by
  rw [withSignature_eq] at hlength ⊢
  have hlist : Rlp.readList? 9 _ = _ := Rlp.readList?_list hlength
  have hodd : s.odd.toNat ≤ 1 := Bool.toNat_le s.odd
  have hchain : (35 + 2 * t.chainId.toNat + s.odd.toNat - 35) / 2 = t.chainId.toNat := by omega
  have hparity : ((35 + 2 * t.chainId.toNat + s.odd.toNat - 35) % 2 == 1) = s.odd := by
    cases s.odd with
    | false => simp
    | true => simp [Nat.add_assoc]
  rw [SignedTransaction.ofBytes?, hlist]
  simp only [parts, Rlp.toNat_bytesOf, Address.ofBytes?_ofNat, Option.map_some, hchain, hparity]
  rw [if_neg (by omega)]

end PreparedTransaction

end ChainAccess
