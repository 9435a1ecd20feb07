import ChainAccess.Network.Basic
import ChainAccess.Proofs.Amount.Decimals
import ChainAccess.Proofs.Json.Records
-- The settings of a network come back from their JSON, from the object and from its
-- text: the factors with their places, the waits to the millisecond, what was left to
-- its default as what was set. So they have the flaws that they had, and their
-- endpoints stand in the order in which they stood.

namespace ChainAccess

open Json (Nests nests_map nests_ofOption readList_map readOption_ofOption)

/-! ## Attempts -/

/-- Whole milliseconds come back from a span; 64 bits hold them. -/
theorem Span.millis_ofMillis (n : UInt64) : (ofMillis n).millis = n := by
  have hlow : n.toNat % 1000 < 1000 := Nat.mod_lt _ (by decide)
  have hrest : (n % 1000).toUInt32.toNat = n.toNat % 1000 := by
    rw [UInt64.toNat_toUInt32, UInt64.toNat_mod]
    exact Nat.mod_eq_of_lt (Nat.lt_trans hlow (by decide))
  have hfit : n.toNat % 1000 * 1000000 < 2 ^ 32 := by omega
  have hnanos : ((n % 1000).toUInt32 * 1000000).toNat = n.toNat % 1000 * 1000000 := by
    rw [UInt32.toNat_mul, hrest]
    exact Nat.mod_eq_of_lt hfit
  have hseconds : (n / 1000).toNat = n.toNat / 1000 := UInt64.toNat_div ..
  unfold millis ofMillis
  rw [hseconds, hnanos, Nat.mul_div_cancel _ (by decide), Nat.div_add_mod', UInt64.ofNat_toNat]

namespace Backoff

theorem read_toJson (b : Backoff) : read b.toJson = .ok b := by
  simp [read, toJson, shape, Span.millis_ofMillis]

theorem nests_toJson (b : Backoff) {n : Nat} : Nests (n + 1) b.toJson := by
  refine .obj ?_
  simp [Json.ofUInt64, Nests.nat]

end Backoff

/-! ## Endpoints -/

namespace RpcUrl

theorem read_toJson (u : RpcUrl) : read u.toJson = .ok u := by
  simp [read, toJson, shape]

theorem nests_toJson (u : RpcUrl) : Nests 1 u.toJson := by
  refine .obj ?_
  simp [Json.ofUInt64, Nests.nat, Nests.str]

end RpcUrl

/-! ## Gas settings -/

namespace Gas.Policy

/-- Neither factor is a zero with a sign. -/
structure ZeroUnsigned (p : Policy) : Prop where
  price : p.priceFactor.ZeroUnsigned
  limit : p.limitFactor.ZeroUnsigned

theorem read_toJson {p : Policy} (h : p.ZeroUnsigned) : read p.toJson = .ok p := by
  have hprice := Decimal.read_toJson h.price
  have hlimit := Decimal.read_toJson h.limit
  have hoverride :=
    readOption_ofOption Json.readUInt64_ofUInt64 (fun _ => rfl) p.limitOverride
  simp [read, toJson, shape, hprice, hlimit, hoverride]

theorem nests_toJson (p : Policy) {n : Nat} : Nests (n + 1) p.toJson := by
  have hoverride : Nests n (.ofOption .ofUInt64 p.limitOverride) :=
    nests_ofOption (fun n => .nat n) _
  refine .obj ?_
  simp [hoverride, Decimal.toJson, Json.ofUInt64, Nests.nat, Nests.str]

end Gas.Policy

/-! ## What is read -/

namespace Gas.Policy

theorem zeroUnsigned_default : default.ZeroUnsigned := ⟨fun _ => rfl, fun _ => rfl⟩

theorem zeroUnsigned_of_getD {r : Json.Record} {name : String} {d : Decimal}
    (h : r.getD name Decimal.read .one = .ok d) : d.ZeroUnsigned := by
  rcases Json.Record.getD_cases h with rfl | ⟨v, hread⟩
  · exact zeroUnsigned_default.price
  · exact Decimal.zeroUnsigned_of_read hread

theorem zeroUnsigned_of_read {v : Json} {p : Policy} (h : read v = .ok p) : p.ZeroUnsigned := by
  obtain ⟨r, -, h⟩ := Json.exists_of_bind h
  obtain ⟨price, hprice, h⟩ := Json.exists_of_bind h
  obtain ⟨floor, -, h⟩ := Json.exists_of_bind h
  obtain ⟨limit, hlimit, h⟩ := Json.exists_of_bind h
  obtain ⟨override, -, h⟩ := Json.exists_of_bind h
  obtain ⟨gas, -, h⟩ := Json.exists_of_bind h
  cases h
  exact ⟨zeroUnsigned_of_getD hprice, zeroUnsigned_of_getD hlimit⟩

end Gas.Policy

namespace Network

theorem zeroUnsigned_of_read {v : Json} {n : Network} (h : read v = .ok n) :
    n.gas.ZeroUnsigned := by
  obtain ⟨r, -, h⟩ := Json.exists_of_bind h
  obtain ⟨slug, -, h⟩ := Json.exists_of_bind h
  obtain ⟨name, -, h⟩ := Json.exists_of_bind h
  obtain ⟨chainId, -, h⟩ := Json.exists_of_bind h
  obtain ⟨rpcUrls, -, h⟩ := Json.exists_of_bind h
  obtain ⟨gas, hgas, h⟩ := Json.exists_of_bind h
  obtain ⟨backoff, -, h⟩ := Json.exists_of_bind h
  obtain ⟨timeout, -, h⟩ := Json.exists_of_bind h
  cases h
  rcases Json.Record.getD_cases hgas with rfl | ⟨v, hread⟩
  · exact Gas.Policy.zeroUnsigned_default
  · exact Gas.Policy.zeroUnsigned_of_read hread

/-! ## Settings -/

theorem read_toJson {n : Network} (h : n.gas.ZeroUnsigned) : read n.toJson = .ok n := by
  have hurls := readList_map RpcUrl.read_toJson n.rpcUrls
  simp [read, toJson, shape, hurls, Gas.Policy.read_toJson h, Backoff.read_toJson]

theorem nests_toJson (n : Network) : Nests 3 n.toJson := by
  have hurls : Nests 2 (.arr (n.rpcUrls.map RpcUrl.toJson)) := nests_map RpcUrl.nests_toJson _
  refine .obj ?_
  simp [hurls, Gas.Policy.nests_toJson, Backoff.nests_toJson, Json.ofUInt64, Nests.nat, Nests.str]

/-- Settings that were read come back when they are written, as an object or as a text,
with the same flaws and the same endpoints to use. -/
theorem settings_come_back {v : Json} {n : Network} (hread : read v = .ok n) :
    ∃ m, read n.toJson = .ok m ∧ (Json.read n.toJson.compact).as read = .ok m ∧ m = n ∧
      m.validate = n.validate ∧ m.usableUrls = n.usableUrls ∧
      ∀ k, m.backoff.delay k = n.backoff.delay k := by
  have hback := read_toJson (zeroUnsigned_of_read hread)
  refine ⟨n, hback, ?_, rfl, rfl, rfl, fun _ => rfl⟩
  rw [Json.read_compact n.nests_toJson (by decide), Json.Document.as_clean, hback]

theorem settings_come_back_with_their_places :
    ∃ n, read (.obj [("slug", .str "main"), ("name", .str "Main"), ("chain_id", .num (.nat 1)),
        ("rpc_urls", .arr [.obj [("type_", .str "rpc"), ("url", .str "http://node"),
          ("weight", .num (.nat 100))]]),
        ("gas", .obj [("gas_multiplier", .str "-1.50")])]) = .ok n ∧
      n.gas.priceFactor = ⟨true, 150, 2, by decide, by decide⟩ ∧
      ∃ m, read n.toJson = .ok m ∧ (Json.read n.toJson.compact).as read = .ok m ∧ m = n ∧
        m.validate = n.validate ∧ m.usableUrls = n.usableUrls ∧
        ∀ k, m.backoff.delay k = n.backoff.delay k := by
  refine ⟨?n, ?hread, ?hprice, settings_come_back ?hread⟩
  case hread => rfl
  case hprice => rfl

end Network

end ChainAccess
