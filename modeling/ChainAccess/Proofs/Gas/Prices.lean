import ChainAccess.Gas.Estimator
import ChainAccess.Proofs.Amount.Factors
import ChainAccess.Proofs.Amount.Overflow
import ChainAccess.Proofs.Handle.Endings
import ChainAccess.Proofs.Handle.Schedule
import ChainAccess.Proofs.Handle.Transcripts
-- The price of a unit of gas. The node is asked for one until an attempt succeeds, and
-- whatever keeps the attempts from it stays hidden: then the floor of the settings
-- stands alone. The larger of the two is scaled by the factor of the settings.

namespace ChainAccess

/-- No amount of gwei is too large for a word of wei. -/
theorem toNat_gweiToWei (gwei : UInt64) : (gweiToWei gwei).toNat = gwei.toNat * 10 ^ 9 := by
  have hwei : weiPerGwei.toNat = 10 ^ 9 := by decide
  have hlt : gwei.toNat * 10 ^ 9 < 2 ^ 64 * 10 ^ 9 :=
    Nat.mul_lt_mul_of_pos_right gwei.toNat_lt (by decide)
  unfold gweiToWei
  rw [BitVec.toNat_mul, Word.toNat_ofUInt64, hwei]
  exact Nat.mod_eq_of_lt (Nat.lt_trans hlt (by decide))

namespace Gas

variable {p q : Policy} {s t : Nat}

/-! ## Prices as numbers -/

/-- The price under some settings when the node tells one: the larger of it and the
floor, times the factor, rounded down, as far as a word holds it. -/
def Policy.priceFor (p : Policy) (told : Nat) : Nat :=
  if p.priceFactor.value ≤ 0 then 0
  else min ⌊((max (p.floorGwei.toNat * 10 ^ 9) told : Nat) : ℚ) * p.priceFactor.value⌋₊
    (Word.size - 1)

theorem toNat_basePrice (floor : Word) (suggested : Option Word) :
    (basePrice floor suggested).toNat = max floor.toNat (suggested.elim 0 BitVec.toNat) := by
  cases suggested with
  | none => exact (Nat.max_zero floor.toNat).symm
  | some price =>
    show (if price.toNat ≤ floor.toNat then floor else price).toNat = max floor.toNat price.toNat
    by_cases h : price.toNat ≤ floor.toNat
    · rw [if_pos h]
      omega
    · rw [if_neg h]
      omega

theorem toNat_scale_basePrice (p : Policy) (suggested : Option Word) :
    ((basePrice (gweiToWei p.floorGwei) suggested).scale p.priceFactor).toNat =
      p.priceFor (suggested.elim 0 BitVec.toNat) := by
  unfold Policy.priceFor
  by_cases hfactor : p.priceFactor.value ≤ 0
  · rw [if_pos hfactor,
      Word.scale_of_not_positive (Decimal.isPositive_eq_false_iff.mpr hfactor)]
    rfl
  · rw [if_neg hfactor]
    rw [not_le] at hfactor
    rw [Word.toNat_scale (Decimal.isPositive_iff.mpr hfactor), Decimal.times_eq_floor hfactor,
      toNat_basePrice, toNat_gweiToWei]

theorem Policy.priceFor_le_priceFor (hfloor : p.floorGwei ≤ q.floorGwei)
    (hfactor : p.priceFactor.value ≤ q.priceFactor.value) (htold : s ≤ t) :
    p.priceFor s ≤ q.priceFor t := by
  rw [UInt64.le_iff_toNat_le] at hfloor
  unfold priceFor
  by_cases hp : p.priceFactor.value ≤ 0
  · rw [if_pos hp]
    exact Nat.zero_le _
  · rw [if_neg hp]
    rw [not_le] at hp
    have hq := lt_of_lt_of_le hp hfactor
    have hbase : max (p.floorGwei.toNat * 10 ^ 9) s ≤ max (q.floorGwei.toNat * 10 ^ 9) t := by
      omega
    have hle := Decimal.times_le_times hp hbase hfactor
    rw [Decimal.times_eq_floor hp, Decimal.times_eq_floor hq] at hle
    rw [if_neg (not_le.mpr hq)]
    omega

theorem Policy.floor_le_priceFor (h : 1 ≤ p.priceFactor.value) (told : Nat) :
    p.floorGwei.toNat * 10 ^ 9 ≤ p.priceFor told := by
  have hpos := lt_of_lt_of_le one_pos h
  have hle := Decimal.le_times h (max (p.floorGwei.toNat * 10 ^ 9) told)
  have hword : p.floorGwei.toNat * 10 ^ 9 ≤ Word.size - 1 := by
    rw [← toNat_gweiToWei]
    exact Nat.le_sub_one_of_lt (gweiToWei p.floorGwei).isLt
  rw [Decimal.times_eq_floor hpos] at hle
  unfold priceFor
  rw [if_neg (not_le.mpr hpos)]
  exact le_min (le_trans (le_max_left _ _) hle) hword

/-! ## What the node tells -/

namespace Estimator

open Workflow

variable {σ : Type} {e : Estimator} {h : Handle σ} {w : World σ} {es : List Exchange}

/-- The first price that comes back while the estimator asks for one. -/
def told? (e : Estimator) (h : Handle σ) (w : World σ) : Option Word :=
  ((e.price h.transcribed).transcript w).findSome? (Exchange.value? Quantity.readWord)

/-- Every failure to be told a price counts as none told. -/
theorem price_run (e : Estimator) (h : Handle σ) (w : World σ) :
    (e.price h).run w =
      match h.suggestedGasPrice.run w with
      | (.done s, v) =>
        (.done ((basePrice (gweiToWei e.policy.floorGwei) (some s)).scale e.policy.priceFactor), v)
      | (.failed _, v) =>
        (.done ((basePrice (gweiToWei e.policy.floorGwei) none).scale e.policy.priceFactor), v)
      | (.expired, v) => (.expired, v) := by
  show andThen h.suggestedGasPrice.caught _ none w = _
  unfold andThen caught Workflow.run
  rcases h.suggestedGasPrice none w with ⟨s | failure | _, v⟩ <;> rfl

theorem transcribes_price
    (hes : Transcribes h.transcribed.suggestedGasPrice h.suggestedGasPrice none w es) :
    Transcribes (e.price h.transcribed) (e.price h) none w es := by
  have hcaught : Transcribes
      (h.transcribed.suggestedGasPrice.caught : Workflow _ TransactionError _)
      h.suggestedGasPrice.caught none w es := hes.caught
  cases hrun : (h.suggestedGasPrice.caught : Workflow σ TransactionError _) none w with
  | mk o v =>
    cases o with
    | done r =>
      have hprice : Transcribes (e.price h.transcribed) (e.price h) none w (es ++ []) :=
        hcaught.bind_done hrun (transcribes_value _)
      rw [List.append_nil] at hprice
      exact hprice
    | failed failure =>
      exact hcaught.bind_stopped fun r hr => by simp [hrun] at hr
    | expired =>
      exact hcaught.bind_stopped fun r hr => by simp [hrun] at hr

/-- The attempts at a price come to the first that is told. -/
theorem exists_asked (e : Estimator) (h : Handle σ) (w : World σ) :
    ∃ es, Transcribes (e.price h.transcribed) (e.price h) none w es ∧
      Finds (Exchange.IsFor "eth_gasPrice" []) (Exchange.value? Quantity.readWord)
        (max 1 h.backoff.attempts.toNat) es (h.suggestedGasPrice.run w).1 := by
  have hasks : Accounts h.transcribed.suggestedGasPrice h.suggestedGasPrice
      (Finds (Exchange.IsFor "eth_gasPrice" []) (Exchange.value? Quantity.readWord) _) :=
    Handle.accounts_retrying (h.transport.accounts_ask_finds _ _ _) repeatable_finds
  obtain ⟨es, hes, hfinds⟩ := hasks none w
  exact ⟨es, transcribes_price hes, hfinds⟩

theorem finds_told (e : Estimator) (h : Handle σ) (w : World σ) :
    Finds (Exchange.IsFor "eth_gasPrice" []) (Exchange.value? Quantity.readWord)
      (max 1 h.backoff.attempts.toNat) ((e.price h.transcribed).transcript w)
      (h.suggestedGasPrice.run w).1 := by
  obtain ⟨es, hes, hfinds⟩ := e.exists_asked h w
  rwa [hes.transcript]

/-! ## The law -/

/-- What the price of an estimator is over a handle. -/
structure Prices (e : Estimator) (h : Handle σ) (w : World σ) : Prop where
  /-- Only prices are asked for, and no more often than the policy allows. -/
  asked : ((e.price h.transcribed).transcript w).length ≤ max 1 h.backoff.attempts.toNat ∧
    ∀ x ∈ (e.price h.transcribed).transcript w, x.IsFor "eth_gasPrice" []
  /-- The attempts go on to the first to end with, and it succeeds just when a price is
  told. -/
  attempts : ∃ k, IsLeast {k | h.backoff.EndsWith RpcError.isPassing
      (h.attempt h.transport.gasPrice) w k} k ∧
    ∀ s, (h.backoff.attemptAfter (h.attempt h.transport.gasPrice) w (k - 1)).outcome = .done s ↔
      e.told? h w = some s
  /-- The price is that of the settings with what is told, or with nothing. -/
  value : ∀ price v, (e.price h).run w = (.done price, v) →
    price.toNat = e.policy.priceFor ((e.told? h w).elim 0 BitVec.toNat)
  unfailing : ∀ failure v, (e.price h).run w ≠ (.failed failure, v)
  ending : h.Attends → ∃ price v, (e.price h).run w = (.done price, v)

theorem prices (e : Estimator) (h : Handle σ) (w : World σ) : e.Prices h w := by
  have hfinds := e.finds_told h w
  have hprice := e.price_run h w
  refine ⟨hfinds.atMost, ?_, ?_, ?_, ?_⟩
  · obtain ⟨k, hleast, hmakes⟩ := h.backoff.exists_makes RpcError.isPassing
      (h.attempt h.transport.gasPrice) w
    refine ⟨k, hleast, fun s => ?_⟩
    have hrun : (h.suggestedGasPrice.run w).1 =
        (h.backoff.attemptAfter (h.attempt h.transport.gasPrice) w (k - 1)).outcome :=
      congrArg Prod.fst hmakes.run_eq
    rw [← hrun]
    exact hfinds.done_iff s
  · intro price v hdone
    rw [hprice] at hdone
    rcases hrun : h.suggestedGasPrice.run w with ⟨s | failure | _, u⟩ <;>
      rw [hrun] at hdone hfinds
    · cases hdone
      rw [told?, (hfinds.done_iff s).mp rfl]
      exact toNat_scale_basePrice e.policy (some s)
    · cases hdone
      have hnone : e.told? h w = none := hfinds.eq_none fun s => by simp
      rw [hnone]
      exact toNat_scale_basePrice e.policy none
    · cases hdone
  · intro failure v hfailed
    rw [hprice] at hfailed
    rcases hrun : h.suggestedGasPrice.run w with ⟨s | cause | _, u⟩ <;>
      rw [hrun] at hfailed <;> cases hfailed
  · intro ha
    have hends : (h.suggestedGasPrice.run w).1 ≠ .expired := ha.ends_retrying _ w
    rw [hprice]
    rcases hrun : h.suggestedGasPrice.run w with ⟨s | failure | _, u⟩
    · exact ⟨_, u, rfl⟩
    · exact ⟨_, u, rfl⟩
    · rw [hrun] at hends
      exact absurd rfl hends

/-- A price is the larger of the floor and of the price that the first successful attempt
tells, times the factor; whatever else comes of the attempts, only the floor is left. It
never fails, and over a pool it always comes. A higher floor, factor or told price gives
no less, and a factor of one or more nothing below the floor. -/
theorem a_price_is_told_or_the_floor :
    (∀ {σ : Type} (e : Estimator) (h : Handle σ) (w : World σ), e.Prices h w) ∧
    (∀ {ω : Type} (wire : Pool.Wire ω) (timeout : Nat) (b : Backoff) (e : Estimator)
      (w : World (Pool.Site ω)),
      ∃ price v, (e.price ⟨Pool.transport wire, timeout, b⟩).run w = (.done price, v)) ∧
    (∀ gwei, (gweiToWei gwei).toNat = gwei.toNat * 10 ^ 9) ∧
    ∀ {σ : Type} (e : Estimator) (h : Handle σ) (w v : World σ) (price : Word),
      (e.price h).run w = (.done price, v) →
      (1 ≤ e.policy.priceFactor.value → e.policy.floorGwei.toNat * 10 ^ 9 ≤ price.toNat) ∧
      ∀ {τ : Type} (e' : Estimator) (h' : Handle τ) (w' v' : World τ) (price' : Word),
        (e'.price h').run w' = (.done price', v') → e.policy.floorGwei ≤ e'.policy.floorGwei →
        e.policy.priceFactor.value ≤ e'.policy.priceFactor.value →
        (e.told? h w).elim 0 BitVec.toNat ≤ (e'.told? h' w').elim 0 BitVec.toNat →
        price.toNat ≤ price'.toNat := by
  refine ⟨prices, ?_, toNat_gweiToWei, ?_⟩
  · intro ω wire timeout b e w
    exact (e.prices _ w).ending (Handle.attends_pool wire timeout b)
  · intro σ e h w v price hrun
    have hvalue := (e.prices h w).value price v hrun
    constructor
    · intro hone
      rw [hvalue]
      exact Policy.floor_le_priceFor hone _
    · intro τ e' h' w' v' price' hrun' hfloor hfactor htold
      rw [hvalue, (e'.prices h' w').value price' v' hrun']
      exact Policy.priceFor_le_priceFor hfloor hfactor htold

/-- A node that answers each request with the next of some answers, and none after them;
three attempts at each call. -/
def scripted : Handle (List (Except RpcError Json)) where
  transport := .ofSend "http://a"
    (fun _ _ s => ⟨some (s.headD (.error (.connection "closed"))), 5, s.tail⟩)
    fun _ _ s => ⟨some (.ok []), 5, s⟩
  timeout := 1000
  backoff := ⟨3, 100, 1000⟩

/-- Prices of at least five gwei are raised by half. -/
def fiveByHalf : Estimator where
  policy := { Policy.default with floorGwei := 5, priceFactor := threeHalves }
  assignments := none

/-- After a failing gateway and a malformed price the node tells ten gwei. -/
def tellsLate : World (List (Except RpcError Json)) :=
  .start [.error (.http 502 "HTTP 502 Bad Gateway"), .ok (.obj [("result", .str "ten")]),
    .ok (.obj [("result", .str "0x2540be400")])]

/-- The price told by the third attempt is raised by half. From a node that tells none
comes no more, but no less than the floor. -/
theorem a_price_told_late_is_raised_by_half :
    scripted.Attends ∧ 1 ≤ fiveByHalf.policy.priceFactor.value ∧
    ∃ price v least u, (fiveByHalf.price scripted).run tellsLate = (.done price, v) ∧
      (fiveByHalf.price scripted).run (.start []) = (.done least, u) ∧
      price = 15000000000 ∧ 5 * 10 ^ 9 ≤ least.toNat ∧ least.toNat ≤ price.toNat := by
  have hattends : scripted.Attends := fun s => ⟨by simp [scripted, Transport.ofSend], fun url => by
    simp [scripted, Transport.ofSend]⟩
  have hvalue : fiveByHalf.policy.priceFactor.value = 3 / 2 := by
    norm_num [Decimal.value, fiveByHalf, threeHalves]
  have hone : 1 ≤ fiveByHalf.policy.priceFactor.value := by
    rw [hvalue]
    norm_num
  obtain ⟨hprices, -, -, hbounds⟩ := a_price_is_told_or_the_floor
  obtain ⟨price, v, hrun⟩ := (hprices fiveByHalf scripted tellsLate).ending hattends
  obtain ⟨least, u, hleast⟩ := (hprices fiveByHalf scripted (.start [])).ending hattends
  have hnone : fiveByHalf.told? scripted (.start []) = none := by rfl
  have htold : ((fiveByHalf.price scripted).run tellsLate).1 = .done 15000000000 := by rfl
  refine ⟨hattends, hone, price, v, least, u, hrun, hleast, ?_, ?_, ?_⟩
  · rw [hrun] at htold
    cases htold
    rfl
  · exact (hbounds _ _ _ _ _ hleast).1 hone
  · refine (hbounds _ _ _ _ _ hleast).2 _ _ _ _ _ hrun (UInt64.le_refl _) (le_refl _) ?_
    rw [hnone]
    exact Nat.zero_le _

end Estimator

end Gas

end ChainAccess
