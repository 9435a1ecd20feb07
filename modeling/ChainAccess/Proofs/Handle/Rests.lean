import ChainAccess.Proofs.Handle.Schedule
import Mathlib.Algebra.Order.Ring.Nat
import Mathlib.Tactic.Common
-- The rests of a policy to the nanosecond. A rest is the first one times a power of
-- two, worked out on seconds and nanoseconds apart. The power stops growing at the last
-- number of 32 bits, and a product too long to be told counts as the cap, which every
-- such product exceeds: so neither is ever seen.

namespace ChainAccess

/-! ## Durations -/

/-- The nanoseconds of a second. -/
def nanosPerSecond : Nat := 1000000000

/-- A span in nanoseconds. -/
def Span.total (s : Span) : Nat := s.seconds.toNat * nanosPerSecond + s.nanos.toNat

/-- A span in its one form: its nanoseconds make up no second. -/
structure Duration extends Span where
  nanos_lt : nanos.toNat < nanosPerSecond

namespace Duration

variable {d e : Duration} {k : UInt32}

/-- The longest duration, in nanoseconds. -/
def longest : Nat := (UInt64.size - 1) * nanosPerSecond + (nanosPerSecond - 1)

theorem total_le (d : Duration) : d.total ≤ longest := by
  have hseconds := d.seconds.toNat_lt
  have hnanos := d.nanos_lt
  unfold nanosPerSecond at hnanos
  unfold Span.total longest nanosPerSecond UInt64.size
  omega

/-- The product, when 64 bits hold it. -/
def mul? (a b : UInt64) : Option UInt64 :=
  if a.toNat * b.toNat < UInt64.size then some (a * b) else none

/-- The sum, when 64 bits hold it. -/
def add? (a b : UInt64) : Option UInt64 :=
  if a.toNat + b.toNat < UInt64.size then some (a + b) else none

/-- The part of some nanoseconds that makes up no second. -/
def belowSecond (nanos : UInt64) : UInt32 := (nanos % 1000000000).toUInt32

theorem toNat_belowSecond (nanos : UInt64) :
    (belowSecond nanos).toNat = nanos.toNat % nanosPerSecond := by
  have hlt : nanos.toNat % nanosPerSecond < nanosPerSecond := Nat.mod_lt _ (by decide)
  have hfit : nanosPerSecond < 2 ^ 32 := by decide
  unfold belowSecond
  rw [UInt64.toNat_toUInt32, UInt64.toNat_mod]
  exact Nat.mod_eq_of_lt (Nat.lt_trans hlt hfit)

/-- So many seconds, and what some nanoseconds leave beside theirs. -/
def ofParts (seconds nanos : UInt64) : Duration where
  seconds := seconds
  nanos := belowSecond nanos
  nanos_lt := by
    rw [toNat_belowSecond]
    exact Nat.mod_lt _ (by decide)

/-- The duration so many times, when its seconds can be told. -/
def times? (d : Duration) (k : UInt32) : Option Duration := do
  let nanos := d.nanos.toUInt64 * k.toUInt64
  let whole ← mul? d.seconds k.toUInt64
  let seconds ← add? whole (nanos / 1000000000)
  return ofParts seconds nanos

/-- The shorter of two durations: the seconds decide, and then the nanoseconds. -/
def shorter (d e : Duration) : Duration :=
  if d.seconds < e.seconds ∨ d.seconds = e.seconds ∧ d.nanos ≤ e.nanos then d else e

theorem toNat_nanos_ofMillis (n : UInt64) :
    (Span.ofMillis n).nanos.toNat = n.toNat % 1000 * 1000000 := by
  have hlow : n.toNat % 1000 < 1000 := Nat.mod_lt _ (by decide)
  have hrest : (n % 1000).toUInt32.toNat = n.toNat % 1000 := by
    rw [UInt64.toNat_toUInt32, UInt64.toNat_mod]
    exact Nat.mod_eq_of_lt (Nat.lt_trans hlow (by decide))
  have hfit : n.toNat % 1000 * 1000000 < 2 ^ 32 := by omega
  unfold Span.ofMillis
  rw [UInt32.toNat_mul, hrest]
  exact Nat.mod_eq_of_lt hfit

/-- So many milliseconds. -/
def ofMillis (n : UInt64) : Duration where
  toSpan := .ofMillis n
  nanos_lt := by
    rw [toNat_nanos_ofMillis]
    unfold nanosPerSecond
    omega

theorem total_ofMillis (n : UInt64) : (ofMillis n).total = n.toNat * 1000000 := by
  have hseconds : (Span.ofMillis n).seconds.toNat = n.toNat / 1000 := UInt64.toNat_div ..
  show (Span.ofMillis n).seconds.toNat * nanosPerSecond + (Span.ofMillis n).nanos.toNat = _
  rw [hseconds, toNat_nanos_ofMillis]
  unfold nanosPerSecond
  omega

/-- The nanoseconds of a duration times a factor stay within 64 bits. -/
theorem nanos_mul_lt (d : Duration) (k : UInt32) : d.nanos.toNat * k.toNat < UInt64.size :=
  Nat.lt_trans (Nat.mul_lt_mul'' d.nanos_lt k.toNat_lt) (by decide)

theorem total_shorter (d e : Duration) : (d.shorter e).total = min d.total e.total := by
  have hd := d.nanos_lt
  have he := e.nanos_lt
  unfold nanosPerSecond at hd he
  unfold shorter
  by_cases h : d.seconds < e.seconds ∨ d.seconds = e.seconds ∧ d.nanos ≤ e.nanos
  · rw [if_pos h]
    rw [UInt64.lt_iff_toNat_lt, ← UInt64.toNat_inj, UInt32.le_iff_toNat_le] at h
    unfold Span.total nanosPerSecond
    omega
  · rw [if_neg h]
    rw [UInt64.lt_iff_toNat_lt, ← UInt64.toNat_inj, UInt32.le_iff_toNat_le] at h
    unfold Span.total nanosPerSecond
    omega

theorem shorter_self (d : Duration) : d.shorter d = d := by
  unfold shorter
  split <;> rfl

/-- The product and the sum hold what they come to just when the whole fits. -/
theorem bind_mul?_add? (a b c : UInt64) :
    ((mul? a b).bind fun whole => add? whole c) =
      if a.toNat * b.toNat + c.toNat < UInt64.size then some (a * b + c) else none := by
  unfold mul?
  by_cases hmul : a.toNat * b.toNat < UInt64.size
  · have hwhole : (a * b).toNat = a.toNat * b.toNat := by
      rw [UInt64.toNat_mul]
      exact Nat.mod_eq_of_lt hmul
    rw [if_pos hmul, Option.bind_some, add?, hwhole]
  · have hadd : ¬ a.toNat * b.toNat + c.toNat < UInt64.size := by omega
    rw [if_neg hmul, Option.bind_none, if_neg hadd]

theorem toNat_productNanos (d : Duration) (k : UInt32) :
    (d.nanos.toUInt64 * k.toUInt64).toNat = d.nanos.toNat * k.toNat := by
  rw [UInt64.toNat_mul, UInt32.toNat_toUInt64, UInt32.toNat_toUInt64]
  exact Nat.mod_eq_of_lt (d.nanos_mul_lt k)

theorem total_ofParts (seconds nanos : UInt64) :
    (ofParts seconds nanos).total =
      seconds.toNat * nanosPerSecond + nanos.toNat % nanosPerSecond := by
  rw [← toNat_belowSecond]
  rfl

/-- Seconds and nanoseconds are too long together just when the seconds are, with those
that the nanoseconds make up. -/
theorem le_longest_iff (seconds nanos : Nat) :
    seconds * nanosPerSecond + nanos ≤ longest ↔
      seconds + nanos / nanosPerSecond < UInt64.size := by
  unfold longest nanosPerSecond UInt64.size
  omega

theorem times?_eq (d : Duration) (k : UInt32) :
    d.times? k =
      if d.seconds.toNat * k.toNat + d.nanos.toNat * k.toNat / nanosPerSecond < UInt64.size then
        some (ofParts (d.seconds * k.toUInt64 + d.nanos.toUInt64 * k.toUInt64 / 1000000000)
          (d.nanos.toUInt64 * k.toUInt64))
      else none := by
  have hcarry : (d.nanos.toUInt64 * k.toUInt64 / 1000000000).toNat =
      d.nanos.toNat * k.toNat / nanosPerSecond := by
    rw [UInt64.toNat_div, toNat_productNanos]
    rfl
  have hbind : d.times? k = ((mul? d.seconds k.toUInt64).bind fun whole =>
      add? whole (d.nanos.toUInt64 * k.toUInt64 / 1000000000)).bind fun seconds =>
        some (ofParts seconds (d.nanos.toUInt64 * k.toUInt64)) := by
    rw [Option.bind_assoc]
    rfl
  rw [hbind, bind_mul?_add?, hcarry, UInt32.toNat_toUInt64]
  split <;> rfl

/-- The product can be told just when it is not too long, and then it is exact. -/
theorem total_times? (d : Duration) (k : UInt32) :
    (d.times? k).map (·.total) =
      if d.total * k.toNat ≤ longest then some (d.total * k.toNat) else none := by
  have htotal : d.total * k.toNat =
      d.seconds.toNat * k.toNat * nanosPerSecond + d.nanos.toNat * k.toNat := by
    unfold Span.total
    rw [Nat.add_mul, Nat.mul_right_comm]
  rw [times?_eq, htotal]
  simp only [le_longest_iff]
  split
  · next hfits =>
    have hseconds : (d.seconds * k.toUInt64 +
        d.nanos.toUInt64 * k.toUInt64 / 1000000000).toNat =
        d.seconds.toNat * k.toNat + d.nanos.toNat * k.toNat / nanosPerSecond := by
      rw [UInt64.toNat_add, UInt64.toNat_mul, UInt64.toNat_div, toNat_productNanos,
        UInt32.toNat_toUInt64, Nat.mod_add_mod]
      exact Nat.mod_eq_of_lt hfits
    rw [Option.map_some, total_ofParts, hseconds, toNat_productNanos, Nat.add_mul, Nat.add_assoc,
      Nat.div_add_mod']
  · rfl

end Duration

/-! ## Factors -/

namespace Backoff

variable {n m : UInt32}

theorem factor_eq (n : UInt32) : factor n = min (2 ^ (n.toNat - 1)) (UInt32.size - 1) := by
  unfold factor
  dsimp only
  by_cases h : n.toNat - 1 < 32
  · have hle : 2 ^ (n.toNat - 1) ≤ 2 ^ 31 := Nat.pow_le_pow_right (by decide) (by omega)
    have hroom : 2 ^ 31 ≤ UInt32.size - 1 := by decide
    rw [if_pos h, Nat.pow_eq, Nat.min_eq_left (Nat.le_trans hle hroom)]
  · have hge : 2 ^ 32 ≤ 2 ^ (n.toNat - 1) := Nat.pow_le_pow_right (by decide) (by omega)
    have hroom : UInt32.size - 1 ≤ 2 ^ 32 := by decide
    rw [if_neg h, Nat.min_eq_right (Nat.le_trans hroom hge)]

theorem factor_le_factor (h : n ≤ m) : factor n ≤ factor m := by
  rw [UInt32.le_iff_toNat_le] at h
  have hpow : 2 ^ (n.toNat - 1) ≤ 2 ^ (m.toNat - 1) :=
    Nat.pow_le_pow_right (by decide) (by omega)
  rw [factor_eq, factor_eq]
  omega

/-- The factor doubles as far as 32 bits hold it. -/
theorem factor_succ (hn : 1 ≤ n.toNat) (hm : m.toNat = n.toNat + 1) :
    factor m = min (2 * factor n) (UInt32.size - 1) := by
  have hpow : 2 ^ (m.toNat - 1) = 2 * 2 ^ (n.toNat - 1) := by
    have hsucc : m.toNat - 1 = n.toNat - 1 + 1 := by omega
    rw [hsucc, Nat.pow_succ, Nat.mul_comm]
  rw [factor_eq, factor_eq, hpow]
  omega

/-- The factor in the 32 bits that hold it. -/
def factorWord (n : UInt32) : UInt32 := UInt32.ofNat (factor n)

theorem toNat_factorWord (n : UInt32) : (factorWord n).toNat = factor n := by
  have hle : factor n ≤ UInt32.size - 1 := by
    rw [factor_eq]
    exact Nat.min_le_right _ _
  exact UInt32.toNat_ofNat_of_lt' (Nat.lt_of_le_of_lt hle (by decide))

end Backoff

/-! ## Rests to the nanosecond -/

/-- A policy of attempts with any rests. -/
structure FineBackoff where
  /-- All attempts together, the first one included. -/
  attempts : UInt32
  /-- The rest after the first failure. -/
  initial : Duration
  /-- The longest rest. -/
  cap : Duration

namespace FineBackoff

variable {p : FineBackoff} {n m : UInt32}

/-- The rest after the failed attempt `n`. -/
def delay (p : FineBackoff) (n : UInt32) : Duration :=
  ((p.initial.times? (Backoff.factorWord n)).getD p.cap).shorter p.cap

theorem total_delay (p : FineBackoff) (n : UInt32) :
    (p.delay n).total = min (p.initial.total * Backoff.factor n) p.cap.total := by
  have htimes := p.initial.total_times? (Backoff.factorWord n)
  rw [Backoff.toNat_factorWord] at htimes
  unfold delay
  rw [Duration.total_shorter]
  cases hproduct : p.initial.times? (Backoff.factorWord n) with
  | none =>
    -- what cannot be told is longer than the cap
    rw [hproduct] at htimes
    have hcap := p.cap.total_le
    split at htimes
    · cases htimes
    · rw [Option.getD_none]
      omega
  | some d =>
    rw [hproduct] at htimes
    split at htimes
    · have hd : d.total = p.initial.total * Backoff.factor n := Option.some.inj htimes
      rw [Option.getD_some, hd]
    · cases htimes

theorem times?_eq_none_iff (p : FineBackoff) (n : UInt32) :
    p.initial.times? (Backoff.factorWord n) = none ↔
      Duration.longest < p.initial.total * Backoff.factor n := by
  have htimes := p.initial.total_times? (Backoff.factorWord n)
  rw [Backoff.toNat_factorWord] at htimes
  rw [← Option.map_eq_none_iff, htimes]
  split
  · next hle => simp [Nat.not_lt.mpr hle]
  · next hle => simp [Nat.lt_of_not_le hle]

theorem delay_of_too_long (h : p.initial.times? (Backoff.factorWord n) = none) :
    p.delay n = p.cap := by
  unfold delay
  rw [h, Option.getD_none, Duration.shorter_self]

theorem total_delay_le (p : FineBackoff) (n : UInt32) : (p.delay n).total ≤ p.cap.total := by
  rw [total_delay]
  exact Nat.min_le_right _ _

theorem total_delay_le_total_delay (h : n ≤ m) : (p.delay n).total ≤ (p.delay m).total := by
  have hproducts : p.initial.total * Backoff.factor n ≤ p.initial.total * Backoff.factor m :=
    Nat.mul_le_mul_left _ (Backoff.factor_le_factor h)
  rw [total_delay, total_delay]
  omega

/-- A cap within reach of the last factor hides that the factors stop doubling. -/
theorem total_delay_succ (hcap : p.cap.total ≤ p.initial.total * (UInt32.size - 1))
    (hn : 1 ≤ n.toNat) (hm : m.toNat = n.toNat + 1) :
    (p.delay m).total = min (2 * (p.delay n).total) p.cap.total := by
  have hproduct : p.initial.total * Backoff.factor m =
      min (2 * (p.initial.total * Backoff.factor n)) (p.initial.total * (UInt32.size - 1)) := by
    rw [Backoff.factor_succ hn hm, ← Nat.mul_min_mul_left, Nat.mul_left_comm]
  rw [total_delay, total_delay, hproduct]
  omega

end FineBackoff

/-- The policy with its rests told to the nanosecond. -/
def Backoff.fine (b : Backoff) : FineBackoff :=
  ⟨b.attempts, .ofMillis b.initial, .ofMillis b.cap⟩

theorem Backoff.delay_eq (b : Backoff) (n : UInt32) :
    b.delay n = min (b.initial.toNat * factor n) b.cap.toNat := by
  have hcap := b.cap.toNat_lt
  unfold delay
  dsimp only
  split
  · rfl
  · next hlong =>
    unfold longestSpan UInt64.size at hlong
    omega

theorem Backoff.total_delay_fine (b : Backoff) (n : UInt32) :
    (b.fine.delay n).total = b.delay n * 1000000 := by
  rw [FineBackoff.total_delay, delay_eq]
  show min ((Duration.ofMillis b.initial).total * factor n) (Duration.ofMillis b.cap).total = _
  rw [Duration.total_ofMillis, Duration.total_ofMillis, Nat.mul_right_comm, Nat.mul_min_mul_right]

/-! ## Rests between runs -/

section

open Workflow

variable {σ ε α : Type} {attempts : UInt32} {rest : UInt32 → Nat} {again : ε → Bool}
  {op : Workflow σ ε α} {n cap : Nat} {w v : World σ} {rs : List (OperationRun σ ε α)}

/-- The loop of a policy with any rests: `n` attempts have failed before, and `left`
bounds those still to come after the next one. -/
def attemptsResting (attempts : UInt32) (rest : UInt32 → Nat) (again : ε → Bool)
    (op : Workflow σ ε α) : Nat → UInt32 → Workflow σ ε α
  | 0, _ => op
  | left + 1, n => do
    match ← op.caught with
    | .ok a => pure a
    | .error e =>
      let n := n + 1
      if !again e then fail e
      else if attempts ≤ n then fail e
      else do
        sleep (rest n)
        attemptsResting attempts rest again op left n

theorem ofNat_succ (n : Nat) : UInt32.ofNat n + 1 = UInt32.ofNat (n + 1) := by
  simp [UInt32.ofNat_add]

theorem attemptsResting_run (left : Nat) (n : UInt32) :
    (attemptsResting attempts rest again op (left + 1) n).run w =
      match op.run w with
      | (.failed e, v) =>
        if again e = true ∧ n + 1 < attempts then
          (attemptsResting attempts rest again op left (n + 1)).run (v.rested (rest (n + 1)))
        else (.failed e, v)
      | ended => ended := by
  simp only [attemptsResting, Workflow.run, Bind.bind, andThen, caught]
  rcases op none w with ⟨a | e | _, v⟩
  · rfl
  · dsimp only
    by_cases ha : again e = true
    · by_cases hn : n + 1 < attempts
      · have hle : ¬ attempts ≤ n + 1 := by simpa using hn
        simp only [ha, hn, hle, Bool.not_true, Bool.false_eq_true, if_false, and_self, if_true]
        rfl
      · have hle : attempts ≤ n + 1 := by simpa using hn
        simp [ha, hn, hle, fail]
    · simp [ha, fail]
  · rfl

/-- The loop of a policy is this one with its rests. -/
theorem Backoff.attemptsFrom_eq (b : Backoff) (again : ε → Bool) (op : Workflow σ ε α)
    (left : Nat) (n : UInt32) :
    b.attemptsFrom again op left n = attemptsResting b.attempts b.delay again op left n := by
  induction left generalizing n with
  | zero => rfl
  | succ left ih =>
    refine congrArg (op.caught >>= ·) (funext fun r => ?_)
    cases r with
    | ok a => rfl
    | error e =>
      show (if !again e then fail e else if b.attempts ≤ n + 1 then fail e
        else sleep (b.delay (n + 1)) >>= fun _ => b.attemptsFrom again op left (n + 1)) = _
      rw [ih]

/-- Runs one after another from a world to another, with the rest for the number of
failures so far between any two and none after the last. -/
inductive Spaced (rest : UInt32 → Nat) :
    Nat → World σ → List (OperationRun σ ε α) → World σ → Prop
  | last {n r} : Spaced rest n r.start [r] r.finish
  | more {n r rs v} : Spaced rest (n + 1) (r.finish.rested (rest (UInt32.ofNat (n + 1)))) rs v →
      Spaced rest n r.start (r :: rs) v

/-- The time that lies between runs. -/
def restedTime : List (OperationRun σ ε α) → Nat
  | r :: s :: rs => (s.start.clock - r.finish.clock) + restedTime (s :: rs)
  | _ => 0

theorem Spaced.single (op : Workflow σ ε α) (w : World σ) :
    Spaced rest n w [op.runFrom w] (op.run w).2 :=
  .last (r := op.runFrom w)

theorem Spaced.head_start (h : Spaced rest n w rs v) : ∃ r more, rs = r :: more ∧ r.start = w := by
  cases h with
  | last => exact ⟨_, [], rfl, rfl⟩
  | more => exact ⟨_, _, rfl, rfl⟩

theorem Spaced.restedTime_le (h : Spaced rest n w rs v) (hcap : ∀ m, rest m ≤ cap) :
    restedTime rs ≤ (rs.length - 1) * cap := by
  induction h with
  | last => exact Nat.zero_le _
  | @more n r rs v hnext ih =>
    obtain ⟨s, more, rfl, hs⟩ := hnext.head_start
    have hgap : s.start.clock - r.finish.clock = rest (UInt32.ofNat (n + 1)) := by
      rw [hs]
      exact Nat.add_sub_cancel_left _ _
    have hrest := hcap (UInt32.ofNat (n + 1))
    have hcount : (r :: s :: more).length - 1 = ((s :: more).length - 1) + 1 := by simp
    rw [restedTime, hgap, hcount, Nat.add_mul, Nat.one_mul]
    omega

/-- The runs on record are spaced by the rests, as many as the policy allows at most, and
end where the loop ends without the record. -/
theorem spaced_attemptsResting (attempts : UInt32) (rest : UInt32 → Nat) (again : ε → Bool)
    (op : Workflow σ ε α) (left n : Nat) (W : World (Recorded σ ε α))
    (hn : n < max 1 attempts.toNat) :
    ∃ rs,
      ((attemptsResting attempts rest again op.recorded left (UInt32.ofNat n)).run W).2.node.runs =
        W.node.runs ++ rs ∧
      rs.length ≤ max 1 (attempts.toNat - n) ∧
      Spaced rest n W.plain rs
        ((attemptsResting attempts rest again op left (UInt32.ofNat n)).run W.plain).2 := by
  induction left generalizing n W with
  | zero => exact ⟨[op.runFrom W.plain], rfl, by simp, .single op W.plain⟩
  | succ left ih =>
    have hlast : Spaced rest n W.plain [op.runFrom W.plain] (op.run W.plain).2 := .single op _
    rw [attemptsResting_run, attemptsResting_run, recorded_run]
    rcases hop : op.run W.plain with ⟨a | e | _, u⟩
    case done | expired =>
      rw [hop] at hlast
      exact ⟨[op.runFrom W.plain], rfl, by simp, hlast⟩
    case failed =>
      rw [hop] at hlast
      have hsmall := attempts.toNat_lt
      have hlt : UInt32.ofNat n + 1 < attempts ↔ n + 1 < attempts.toNat := by
        have hroom : n + 1 < 2 ^ 32 := by omega
        rw [ofNat_succ, UInt32.lt_iff_toNat_lt, UInt32.toNat_ofNat_of_lt' hroom]
      dsimp only
      by_cases hmore : again e = true ∧ UInt32.ofNat n + 1 < attempts
      · rw [if_pos hmore, if_pos hmore]
        have hleft := hlt.mp hmore.2
        rw [ofNat_succ]
        obtain ⟨rs, hruns, hlength, hspaced⟩ := ih (n + 1)
          ((u.recorded (W.node.runs ++ [op.runFrom W.plain])).rested (rest (UInt32.ofNat (n + 1))))
          (by omega)
        have hfinish : (op.runFrom W.plain).finish = u := congrArg Prod.snd hop
        refine ⟨op.runFrom W.plain :: rs, ?_, ?_, ?_⟩
        · rw [hruns]
          simp [World.recorded, World.rested, World.note]
        · rw [List.length_cons]
          omega
        · apply Spaced.more (r := op.runFrom W.plain)
          rw [hfinish]
          exact hspaced
      · rw [if_neg hmore, if_neg hmore]
        exact ⟨[op.runFrom W.plain], rfl, by simp, hlast⟩

/-- The runs of an operation that the loop makes. -/
def restingRuns (attempts : UInt32) (rest : UInt32 → Nat) (again : ε → Bool)
    (op : Workflow σ ε α) (w : World σ) : List (OperationRun σ ε α) :=
  ((attemptsResting attempts rest again op.recorded attempts.toNat 0).run
    (w.recorded [])).2.node.runs

/-- The loop rests between its runs and nowhere else, and in all no longer than the
longest rest for each attempt but the first. -/
theorem rested_restingRuns (attempts : UInt32) (again : ε → Bool) (op : Workflow σ ε α)
    (w : World σ) (hcap : ∀ m, rest m ≤ cap) :
    Spaced rest 0 w (restingRuns attempts rest again op w)
      ((attemptsResting attempts rest again op attempts.toNat 0).run w).2 ∧
    restedTime (restingRuns attempts rest again op w) ≤ (max 1 attempts.toNat - 1) * cap := by
  obtain ⟨rs, hruns, hlength, hspaced⟩ := spaced_attemptsResting attempts rest again op
    attempts.toNat 0 (w.recorded []) (by omega)
  have heq : restingRuns attempts rest again op w = rs := hruns
  rw [heq]
  refine ⟨hspaced, ?_⟩
  calc restedTime rs ≤ (rs.length - 1) * cap := hspaced.restedTime_le hcap
    _ ≤ (max 1 attempts.toNat - 1) * cap :=
      Nat.mul_le_mul_right cap (Nat.sub_le_sub_right hlength 1)

/-- The operation under the policy, on a clock of nanoseconds. -/
def FineBackoff.run (p : FineBackoff) (again : ε → Bool) (op : Workflow σ ε α) :
    Workflow σ ε α :=
  attemptsResting p.attempts (fun n => (p.delay n).total) again op p.attempts.toNat 0

/-- The runs of an operation that the policy makes. -/
def FineBackoff.runs (p : FineBackoff) (again : ε → Bool) (op : Workflow σ ε α) (w : World σ) :
    List (OperationRun σ ε α) :=
  restingRuns p.attempts (fun n => (p.delay n).total) again op w

theorem Backoff.run_eq (b : Backoff) (again : ε → Bool) (op : Workflow σ ε α) :
    b.run again op = attemptsResting b.attempts b.delay again op b.attempts.toNat 0 :=
  b.attemptsFrom_eq again op _ 0

theorem Backoff.runs_eq (b : Backoff) (again : ε → Bool) (op : Workflow σ ε α) (w : World σ) :
    b.runs again op w = restingRuns b.attempts b.delay again op w := by
  unfold Backoff.runs restingRuns
  rw [b.run_eq]

end

/-! ## The law -/

/-- What the rests of a policy are. -/
structure FineBackoff.Schedule (p : FineBackoff) : Prop where
  /-- The first rest times a power of two of 32 bits, or the cap if that is shorter. -/
  value : ∀ n : UInt32, 1 ≤ n.toNat → (p.delay n).total =
    min (p.initial.total * min (2 ^ (n.toNat - 1)) (UInt32.size - 1)) p.cap.total
  /-- On the way 32 bits hold the factor, and 64 bits the nanoseconds times it. -/
  held : ∀ n, (Backoff.factorWord n).toNat = Backoff.factor n ∧
    p.initial.nanos.toNat * (Backoff.factorWord n).toNat < UInt64.size
  /-- A product is refused just when it is too long, and then the rest is the cap. -/
  refused : ∀ n, (p.initial.times? (Backoff.factorWord n) = none ↔
      Duration.longest < p.initial.total * Backoff.factor n) ∧
    (p.initial.times? (Backoff.factorWord n) = none → p.delay n = p.cap)
  bounded : ∀ n, (p.delay n).total ≤ p.cap.total
  monotone : ∀ n m, n ≤ m → (p.delay n).total ≤ (p.delay m).total
  doubling : p.cap.total ≤ p.initial.total * (UInt32.size - 1) → ∀ n m : UInt32, 1 ≤ n.toNat →
    m.toNat = n.toNat + 1 → (p.delay m).total = min (2 * (p.delay n).total) p.cap.total
  /-- Between its runs an operation rests so, and nowhere else; in all no longer than the
  cap for each attempt but the first. -/
  rested : ∀ {σ ε α : Type} (again : ε → Bool) (op : Workflow σ ε α) (w : World σ),
    Spaced (fun n => (p.delay n).total) 0 w (p.runs again op w) ((p.run again op).run w).2 ∧
    restedTime (p.runs again op w) ≤ (max 1 p.attempts.toNat - 1) * p.cap.total

theorem FineBackoff.schedule (p : FineBackoff) : p.Schedule where
  value n _ := by rw [total_delay, Backoff.factor_eq]
  held n := ⟨Backoff.toNat_factorWord n, p.initial.nanos_mul_lt _⟩
  refused n := ⟨p.times?_eq_none_iff n, delay_of_too_long⟩
  bounded := p.total_delay_le
  monotone _ _ h := total_delay_le_total_delay h
  doubling hcap _ _ hn hm := total_delay_succ hcap hn hm
  rested again op w := rested_restingRuns p.attempts again op w p.total_delay_le

/-- Rests double up to their cap, whatever 32 and 64 bits hold on the way, and an
operation rests in all no longer than the cap for each attempt but the first. The policies
told in milliseconds are the ones among these with such rests, and their loop is the same. -/
theorem a_rest_doubles_up_to_its_cap :
    (∀ p : FineBackoff, p.Schedule) ∧
    ∀ b : Backoff,
      (∀ n : UInt32, 1 ≤ n.toNat →
        b.delay n = min (b.initial.toNat * min (2 ^ (n.toNat - 1)) (UInt32.size - 1)) b.cap.toNat ∧
        (b.fine.delay n).total = b.delay n * 1000000) ∧
      ∀ {σ ε α : Type} (again : ε → Bool) (op : Workflow σ ε α) (w : World σ),
        b.run again op = attemptsResting b.attempts b.delay again op b.attempts.toNat 0 ∧
        Spaced b.delay 0 w (b.runs again op w) ((b.run again op).run w).2 ∧
        restedTime (b.runs again op w) ≤ (max 1 b.attempts.toNat - 1) * b.cap.toNat := by
  refine ⟨FineBackoff.schedule, ?_⟩
  intro b
  refine ⟨?_, ?_⟩
  · intro n _
    refine ⟨?_, b.total_delay_fine n⟩
    rw [b.delay_eq, Backoff.factor_eq]
  · intro σ ε α again op w
    have hcap : ∀ m, b.delay m ≤ b.cap.toNat := by
      intro m
      rw [b.delay_eq]
      exact Nat.min_le_right _ _
    rw [b.runs_eq, b.run_eq]
    exact ⟨rfl, rested_restingRuns b.attempts again op w hcap⟩

/-- A nanosecond short of two seconds at first, and eight seconds at most. -/
def halting : FineBackoff where
  attempts := 5
  initial := ⟨⟨1, 999999999⟩, by decide⟩
  cap := ⟨⟨8, 0⟩, by decide⟩

/-- The second rest is twice the first, the third twice the second as far as the cap, and no
later one is shorter. -/
theorem a_rest_doubles_twice :
    halting.cap.total ≤ halting.initial.total * (UInt32.size - 1) ∧
    (halting.delay 2).total = 3999999998 ∧
    (halting.delay 3).total = min (2 * (halting.delay 2).total) halting.cap.total ∧
    (halting.delay 4).total ≤ (halting.delay 33).total := by
  have hcap : halting.cap.total ≤ halting.initial.total * (UInt32.size - 1) := by decide
  obtain ⟨hschedule, -⟩ := a_rest_doubles_up_to_its_cap
  have h := hschedule halting
  refine ⟨hcap, ?_, ?_, ?_⟩
  · rw [h.value 2 (by decide)]
    decide
  · exact h.doubling hcap 2 3 (by decide) (by decide)
  · exact h.monotone 4 33 (by decide)

end ChainAccess
