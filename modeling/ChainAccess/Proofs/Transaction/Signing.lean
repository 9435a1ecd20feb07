import ChainAccess.Proofs.Transaction.Signed
import Mathlib.Data.List.Induction
import Mathlib.Tactic.Common
-- Computing that a transaction can be signed. The secret number of a signature lies
-- behind five keyed hashes, each of which goes into the next. They are told as numbers,
-- so that each can be computed by itself: what is computed in one go is kept in memory
-- until its end.

namespace ChainAccess

/-! ## Bytes of a known number -/

/-- Bytes are those of their number. -/
theorem Bytes.ofNat_toNat (bs : Bytes) : ofNat bs.length (toNat bs) = bs := by
  induction bs using List.reverseRecOn with
  | nil => rfl
  | append_singleton bs b ih =>
    have hb := b.toNat_lt
    have hfront : (256 * toNat bs + b.toNat) / 256 = toNat bs := by omega
    have hlast : UInt8.ofNat (256 * toNat bs + b.toNat) = b := by
      apply UInt8.toNat_inj.mp
      rw [UInt8.toNat_ofNat']
      omega
    rw [List.length_append, List.length_singleton, ofNat, toNat_concat, hfront, hlast, ih]

theorem Sha256.size_absorb {n : Nat} {s : Array UInt32} {bs : Bytes} (hs : s.size = 8) :
    (absorb n s bs).size = 8 := by
  induction n generalizing s bs with
  | zero => exact hs
  | succ n ih => exact ih rfl

theorem Sha256.length_finish {s : Array UInt32} (hs : s.size = 8) (before : Nat) (msg : Bytes) :
    (finish s before msg).length = 32 := by
  have hsize : (absorb ((padded before msg).length / 64) s (padded before msg)).size = 8 :=
    size_absorb hs
  simp [finish, wordBytes, List.length_flatMap, List.map_const', hsize]

theorem length_hmacSha256 (key msg : Bytes) : (hmacSha256 key msg).length = 32 :=
  Sha256.length_finish (Sha256.size_absorb rfl) _ _

/-- A keyed hash is known by its number. -/
theorem hmacSha256_eq {key msg : Bytes} {m : Nat} (h : (hmacSha256 key msg).toNat = m) :
    hmacSha256 key msg = Bytes.ofNat 32 m := by
  rw [← h, ← length_hmacSha256 key msg, Bytes.ofNat_toNat]

/-! ## Drawing a secret number -/

namespace Secp256k1

variable {key : PrivateKey} {z k₁ v₁ k₂ v₂ secret : Nat}

/-- The numbers of the hashes that a signature of `z` goes through, up to a secret number
that serves. -/
structure Draws (key : PrivateKey) (z k₁ v₁ k₂ v₂ secret : Nat) : Prop where
  firstKey : (hmacSha256 (List.replicate 32 0)
    (List.replicate 32 1 ++ [0] ++ (key.toBytes ++ Bytes.ofNat 32 z))).toNat = k₁
  firstValue : (hmacSha256 (Bytes.ofNat 32 k₁) (List.replicate 32 1)).toNat = v₁
  secondKey : (hmacSha256 (Bytes.ofNat 32 k₁)
    (Bytes.ofNat 32 v₁ ++ [1] ++ (key.toBytes ++ Bytes.ofNat 32 z))).toNat = k₂
  secondValue : (hmacSha256 (Bytes.ofNat 32 k₂) (Bytes.ofNat 32 v₁)).toNat = v₂
  drawn : (hmacSha256 (Bytes.ofNat 32 k₂) (Bytes.ofNat 32 v₂)).toNat = secret
  pos : 0 < secret
  lt_order : secret < n
  serves : (signWith key z secret).isSome

theorem draw_of_serves {tries : Nat} {k v : Bytes} {s : Signature}
    (hdrawn : (hmacSha256 k v).toNat = secret) (hpos : 0 < secret) (hlt : secret < n)
    (hserves : signWith key z secret = some s) : draw key z (tries + 1) k v = some s := by
  rw [draw]
  simp [hdrawn, hpos, hlt, hserves]

-- An equation of functions, as for `sign_eq` of transactions.
theorem PrivateKey.sign_eq : sign = fun key hash =>
    let z := hash.value.toNat % n
    let seed := key.toBytes ++ Bytes.ofNat 32 z
    let v0 := List.replicate 32 (1 : UInt8)
    let k1 := hmacSha256 (List.replicate 32 0) (v0 ++ [0] ++ seed)
    let v1 := hmacSha256 k1 v0
    let k2 := hmacSha256 k1 (v1 ++ [1] ++ seed)
    draw key z 64 k2 (hmacSha256 k2 v1) := by
  delta sign
  rfl

theorem Draws.exists_sign (h : Draws key z k₁ v₁ k₂ v₂ secret) {hash : Hash}
    (hz : hash.value.toNat % n = z) : ∃ s, key.sign hash = some s := by
  obtain ⟨s, hs⟩ := Option.isSome_iff_exists.mp h.serves
  have hdraw : draw key z 64 (Bytes.ofNat 32 k₂) (Bytes.ofNat 32 v₂) = some s :=
    draw_of_serves h.drawn h.pos h.lt_order hs
  refine ⟨s, ?_⟩
  rw [PrivateKey.sign_eq]
  simp only [hz, hmacSha256_eq h.firstKey, hmacSha256_eq h.firstValue, hmacSha256_eq h.secondKey,
    hmacSha256_eq h.secondValue, hdraw]

end Secp256k1

/-- A transaction is signed when a secret number is drawn for its hash. -/
theorem PreparedTransaction.exists_sign {t : PreparedTransaction} {target : Address} {data : Bytes}
    {z k₁ v₁ k₂ v₂ secret : Nat} (h : Secp256k1.Draws t.key z k₁ v₁ k₂ v₂ secret)
    (hz : (t.signingHash target data).value.toNat % Secp256k1.n = z) :
    ∃ hash raw, t.sign target data = .ok (hash, raw) := by
  obtain ⟨s, hs⟩ := h.exists_sign hz
  rw [sign_eq]
  simp only [hs]
  exact ⟨_, _, rfl⟩

end ChainAccess
