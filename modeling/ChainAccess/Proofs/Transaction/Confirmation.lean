import ChainAccess.Proofs.Handle.Replies
import ChainAccess.Transaction.Builder
import Mathlib.Tactic.Common
-- Waiting for a receipt. The node is read until it has one, until a read fails, or as
-- often as was asked for. To count the reads they are put on record: all but the last
-- found nothing, the last decides, and the waits lie between them and nowhere else. So are
-- the attempts that the reads consist of, and each request for the receipt with its reply.

namespace ChainAccess

open Workflow

/-- A policy makes no more attempts than it allows. -/
theorem Backoff.length_runs_le {σ ε α : Type} (b : Backoff) (again : ε → Bool)
    (op : Workflow σ ε α) (w : World σ) :
    (b.runs again op w).length ≤ max 1 b.attempts.toNat := by
  obtain ⟨k, hleast, hmakes⟩ := b.exists_makes again op w
  rw [hmakes.runs_eq, List.length_map, List.length_range]
  exact hleast.2 ⟨by omega, Or.inr (Nat.le_refl _)⟩

namespace TransactionBuilder

variable {σ : Type} {h : Handle σ} {hash : Hash} {polls : UInt32} {interval most : Nat}
  {w v : World σ} {read : Workflow σ RpcError (Option Receipt)}

/-! ## Reads on record -/

/-- A read of a receipt. -/
abbrev ReceiptRead (σ : Type) := OperationRun σ RpcError (Option Receipt)

/-- The wait for a receipt with a read of one's own. -/
def awaitBy (read : Workflow σ RpcError (Option Receipt)) (hash : Hash) (polls : UInt32)
    (interval : Nat) : Nat → Workflow σ TransactionError Receipt
  | 0 => fail (.unconfirmed hash polls)
  | left + 1 => do
    match ← read.withError .rpc with
    | some receipt => pure receipt
    | none => do
      if left = 0 then pure () else sleep interval
      awaitBy read hash polls interval left

theorem pollFrom_eq (left : Nat) :
    pollFrom h hash polls interval left = awaitBy (h.receipt hash) hash polls interval left := by
  induction left with
  | zero => rfl
  | succ left ih =>
    rw [pollFrom, ih]
    rfl

/-- The reads that a wait for a receipt makes. -/
def reads (h : Handle σ) (hash : Hash) (polls : UInt32) (interval : Nat) (w : World σ) :
    List (ReceiptRead σ) :=
  ((awaitBy (h.receipt hash).recorded hash polls interval polls.toNat).run
    (w.recorded [])).2.node.runs

/-- The attempts at reads that a wait for a receipt makes. -/
def attempts (h : Handle σ) (hash : Hash) (polls : UInt32) (interval : Nat) (w : World σ) :
    List (ReceiptRead σ) :=
  let read := h.backoff.run RpcError.isPassing (h.attempt (h.transport.receipt hash)).recorded
  ((awaitBy read hash polls interval polls.toNat).run (w.recorded [])).2.node.runs

/-- The attempts that are made for a read. -/
def attemptsOf (h : Handle σ) (hash : Hash) (r : ReceiptRead σ) : List (ReceiptRead σ) :=
  h.backoff.runs RpcError.isPassing (h.attempt (h.transport.receipt hash)) r.start

/-- What is exchanged in an attempt at a read. -/
def exchangesOf (h : Handle σ) (hash : Hash) (a : ReceiptRead σ) : List Exchange :=
  (h.transcribed.attempt (h.transcribed.transport.receipt hash)).transcript a.start

theorem awaitBy_run (left : Nat) :
    (awaitBy read hash polls interval (left + 1)).run w =
      match read.run w with
      | (.done (some receipt), v) => (.done receipt, v)
      | (.done none, v) =>
        if left = 0 then (.failed (.unconfirmed hash polls), v)
        else (awaitBy read hash polls interval left).run (v.rested interval)
      | (.failed e, v) => (.failed (.rpc e), v)
      | (.expired, v) => (.expired, v) := by
  simp only [awaitBy, Workflow.run, Bind.bind, andThen, withError]
  rcases read none w with ⟨(_ | receipt) | e | _, v⟩
  case done.none =>
    dsimp only
    split
    next hleft =>
      subst hleft
      rfl
    next => rfl
  all_goals rfl

/-- A read that finds no receipt is followed by another, if one may still come. -/
theorem awaitBy_run_pending {left : Nat} (hread : read.run w = (.done none, v))
    (hleft : left ≠ 0) :
    (awaitBy read hash polls interval (left + 1)).run w =
      (awaitBy read hash polls interval left).run (v.rested interval) := by
  rw [awaitBy_run, hread]
  exact if_neg hleft

/-! ## What a series of reads comes to -/

/-- From a world on, a wait that may read so often is over in another world by these
reads, and comes to an outcome. -/
structure WaitsBy (h : Handle σ) (hash : Hash) (polls : UInt32) (interval most : Nat)
    (w : World σ) (rs : List (ReceiptRead σ)) (o : Outcome TransactionError Receipt)
    (v : World σ) : Prop where
  length_le : rs.length ≤ most
  ne_nil : 0 < most → rs ≠ []
  /-- Each read is a call under the policy of the handle. -/
  retried : ∀ r ∈ rs, r = (h.receipt hash).runFrom r.start
  /-- The first read is made at once. -/
  start_eq : ∀ r ∈ rs.head?, r.start = w
  /-- Between two reads lies the wait. -/
  rested : rs.IsChain fun r s => s.start = r.finish.rested interval
  /-- Nothing follows the last read; without any nothing happens. -/
  finish_eq : v = rs.getLast?.elim w OperationRun.finish
  pending : ∀ r ∈ rs.dropLast, r.outcome = .done none
  receipt_iff : ∀ receipt, o = .done receipt ↔
    ∃ r ∈ rs.getLast?, r.outcome = .done (some receipt)
  error_iff : ∀ e, o = .failed (.rpc e) ↔ ∃ r ∈ rs.getLast?, r.outcome = .failed e
  timeout_iff : o = .failed (.unconfirmed hash polls) ↔
    rs.length = most ∧ ∀ r ∈ rs, r.outcome = .done none
  cut_off_iff : o = .expired ↔ ∃ r ∈ rs.getLast?, r.outcome = .expired
  /-- There is no other way to fail. -/
  failure : ∀ e, o = .failed e → (∃ e', e = .rpc e') ∨ e = .unconfirmed hash polls

/-- The reads of a wait consist of these attempts, at most so many for each, and the
attempts of these exchanges. -/
structure AsksBy (h : Handle σ) (hash : Hash) (most : Nat) (rs as : List (ReceiptRead σ))
    (es : List Exchange) : Prop where
  /-- The attempts are those of one read after another. -/
  attempts_eq : as = rs.flatMap (attemptsOf h hash)
  /-- A read makes the attempts of the policy, and comes to what the last comes to. -/
  made : ∀ r ∈ rs, ∃ k,
    IsLeast {k | h.backoff.EndsWith RpcError.isPassing
      (h.attempt (h.transport.receipt hash)) r.start k} k ∧
    attemptsOf h hash r = (List.range k).map
      (h.backoff.attemptAfter (h.attempt (h.transport.receipt hash)) r.start) ∧
    ∃ a ∈ (attemptsOf h hash r).getLast?, a.outcome = r.outcome ∧ a.finish = r.finish
  length_le : as.length ≤ most * max 1 h.backoff.attempts.toNat
  exchanges_eq : es = as.flatMap (exchangesOf h hash)
  /-- An attempt asks for the receipt once, if an endpoint answers, and the reply decides. -/
  told : ∀ a ∈ as, Told h (Rpc.request "eth_getTransactionReceipt" (some (.arr [hash.toJson])))
    (Json.readOption Receipt.read) a (exchangesOf h hash a)
  /-- What a read finds is what the last reply to it tells. -/
  asked : ∀ r ∈ rs, Asks (Exchange.IsFor "eth_getTransactionReceipt" [hash.toJson])
    (Exchange.value? (Json.readOption Receipt.read)) (max 1 h.backoff.attempts.toNat)
    ((attemptsOf h hash r).flatMap (exchangesOf h hash)) r.outcome

theorem waitsBy_nothing :
    WaitsBy h hash polls interval 0 w [] (.failed (.unconfirmed hash polls)) w where
  length_le := Nat.le_refl _
  ne_nil hpos := absurd hpos (by decide)
  retried := by simp
  start_eq := by simp
  rested := by simp
  finish_eq := rfl
  pending := by simp
  receipt_iff := by simp
  error_iff := by simp
  timeout_iff := by simp
  cut_off_iff := by simp
  failure e he := by
    cases he
    exact Or.inr rfl

/-- What the last read makes of the wait, when no more are to come. -/
def concluded (hash : Hash) (polls : UInt32) :
    Outcome RpcError (Option Receipt) → Outcome TransactionError Receipt
  | .done (some receipt) => .done receipt
  | .done none => .failed (.unconfirmed hash polls)
  | .failed e => .failed (.rpc e)
  | .expired => .expired

theorem awaitBy_run_last {left : Nat} {o : Outcome RpcError (Option Receipt)}
    (hread : read.run w = (o, v)) (hlast : o = .done none → left = 0) :
    (awaitBy read hash polls interval (left + 1)).run w = (concluded hash polls o, v) := by
  rw [awaitBy_run, hread]
  rcases o with (_ | receipt) | e | _
  case done.none => exact if_pos (hlast rfl)
  all_goals rfl

/-- A read ends the wait when it is not told that there is no receipt yet, or when it is
the last. -/
theorem waitsBy_last (h : Handle σ) (hash : Hash) (polls : UInt32) (interval most : Nat)
    (w : World σ) (hlast : ((h.receipt hash).run w).1 = .done none → most = 0) :
    WaitsBy h hash polls interval (most + 1) w [(h.receipt hash).runFrom w]
      (concluded hash polls ((h.receipt hash).run w).1) ((h.receipt hash).run w).2 where
  length_le := by simp
  ne_nil _ := by simp
  retried := by simp [runFrom]
  start_eq := by simp [runFrom]
  rested := by simp
  finish_eq := rfl
  pending := by simp
  receipt_iff receipt := by
    simp only [List.getLast?_singleton, Option.mem_some_iff, exists_eq_left', runFrom]
    rcases ((h.receipt hash).run w).1 with (_ | a) | e | _ <;> simp [concluded]
  error_iff e := by
    simp only [List.getLast?_singleton, Option.mem_some_iff, exists_eq_left', runFrom]
    rcases ((h.receipt hash).run w).1 with (_ | a) | e | _ <;> simp [concluded]
  timeout_iff := by
    simp only [List.length_singleton, List.mem_singleton, forall_eq, runFrom]
    rcases hread : ((h.receipt hash).run w).1 with (_ | a) | e | _
    case done.none => simp [concluded, hlast hread]
    all_goals simp [concluded]
  cut_off_iff := by
    simp only [List.getLast?_singleton, Option.mem_some_iff, exists_eq_left', runFrom]
    rcases ((h.receipt hash).run w).1 with (_ | a) | e | _ <;> simp [concluded]
  failure e he := by
    rcases hread : ((h.receipt hash).run w).1 with (_ | a) | e' | _ <;> rw [hread] at he <;>
      cases he
    · exact Or.inr rfl
    · exact Or.inl ⟨e', rfl⟩

/-- A read that finds no receipt, and the wait after it, come before others. -/
theorem WaitsBy.after_pending {rs : List (ReceiptRead σ)} {o : Outcome TransactionError Receipt}
    (hread : ((h.receipt hash).run w).1 = .done none) (hmost : 0 < most)
    (hrest : WaitsBy h hash polls interval most (((h.receipt hash).run w).2.rested interval)
      rs o v) :
    WaitsBy h hash polls interval (most + 1) w ((h.receipt hash).runFrom w :: rs) o v := by
  obtain ⟨s, more, rfl⟩ := List.exists_cons_of_ne_nil (hrest.ne_nil hmost)
  exact {
    length_le := Nat.succ_le_succ hrest.length_le
    ne_nil := fun _ => by simp
    retried := by
      rintro r (_ | ⟨_, hr⟩)
      · rfl
      · exact hrest.retried r hr
    start_eq := by simp [runFrom]
    rested := List.isChain_cons_cons.mpr ⟨hrest.start_eq s rfl, hrest.rested⟩
    finish_eq := by
      rw [List.getLast?_cons_cons, hrest.finish_eq, List.getLast?_cons]
      rfl
    pending := by
      rw [List.dropLast_cons_cons]
      rintro r (_ | ⟨_, hr⟩)
      · exact hread
      · exact hrest.pending r hr
    receipt_iff := by
      rw [List.getLast?_cons_cons]
      exact hrest.receipt_iff
    error_iff := by
      rw [List.getLast?_cons_cons]
      exact hrest.error_iff
    timeout_iff := by
      have hfirst : ((h.receipt hash).runFrom w).outcome = .done none := hread
      rw [hrest.timeout_iff]
      simp [hfirst]
    cut_off_iff := by
      rw [List.getLast?_cons_cons]
      exact hrest.cut_off_iff
    failure := hrest.failure }

/-! ## The wait -/

/-- The reads of a wait: whatever is kept of each is kept of the wait in turn, by induction
on how many may still come. -/
theorem exists_reads (h : Handle σ) (hash : Hash) (polls : UInt32) (interval left : Nat)
    (w : World σ) :
    ∃ rs, WaitsBy h hash polls interval left w rs
        ((awaitBy (h.receipt hash) hash polls interval left).run w).1
        ((awaitBy (h.receipt hash) hash polls interval left).run w).2 ∧
      ∀ {τ β : Type} {keep : World σ → List β → World τ}
        {read : Workflow τ RpcError (Option Receipt)} {added : World σ → List β},
        Keeping keep → (∀ w, Keeps keep read (h.receipt hash) w (added w)) →
        Keeps keep (awaitBy read hash polls interval left)
          (awaitBy (h.receipt hash) hash polls interval left) w
          (rs.flatMap fun r => added r.start) := by
  induction left generalizing w with
  | zero => exact ⟨[], waitsBy_nothing, fun _ _ past => by simp [awaitBy, fail, Workflow.run]⟩
  | succ left ih =>
    rcases hread : (h.receipt hash).run w with ⟨o, u⟩
    have hkept : ∀ {τ β : Type} {keep : World σ → List β → World τ}
        {read : Workflow τ RpcError (Option Receipt)} {added : World σ → List β},
        (∀ w, Keeps keep read (h.receipt hash) w (added w)) → ∀ past,
        read.run (keep w past) = (o, keep u (past ++ added w)) := by
      intro τ β keep read added hop past
      rw [hop w past, hread]
    by_cases hpending : o = .done none ∧ left ≠ 0
    · obtain ⟨rfl, hleft⟩ := hpending
      obtain ⟨rs, hwaits, hkeeps⟩ := ih (u.rested interval)
      have hstep : (awaitBy (h.receipt hash) hash polls interval (left + 1)).run w =
          (awaitBy (h.receipt hash) hash polls interval left).run (u.rested interval) :=
        awaitBy_run_pending hread hleft
      refine ⟨(h.receipt hash).runFrom w :: rs, ?_, fun hkeep hop past => ?_⟩
      · rw [hstep]
        apply WaitsBy.after_pending (by rw [hread]) (Nat.pos_of_ne_zero hleft)
        rw [hread]
        exact hwaits
      · rw [hstep, awaitBy_run_pending (hkept hop past) hleft, hkeep, hkeeps hkeep hop,
          List.flatMap_cons, List.append_assoc]
        rfl
    · have hends : o = .done none → left = 0 := by
        intro ho
        by_contra hne
        exact hpending ⟨ho, hne⟩
      have hlast := waitsBy_last h hash polls interval left w (by rwa [hread])
      rw [hread] at hlast
      refine ⟨[(h.receipt hash).runFrom w], ?_, fun hkeep hop past => ?_⟩
      · rwa [awaitBy_run_last hread hends]
      · rw [awaitBy_run_last (hkept hop past) hends, awaitBy_run_last hread hends,
          List.flatMap_singleton]
        rfl

/-! ## Attempts and exchanges -/

theorem keeps_attempts (h : Handle σ) (hash : Hash) (w : World σ) :
    Keeps World.recorded
      (h.backoff.run RpcError.isPassing (h.attempt (h.transport.receipt hash)).recorded)
      (h.receipt hash) w (attemptsOf h hash ((h.receipt hash).runFrom w)) :=
  h.backoff.keeps_runs _ _ w

theorem keeps_exchanges (h : Handle σ) (hash : Hash) (w : World σ) :
    Keeps World.transcribed (h.transcribed.receipt hash) (h.receipt hash) w
      ((attemptsOf h hash ((h.receipt hash).runFrom w)).flatMap (exchangesOf h hash)) :=
  Backoff.keeps_run keeping_transcribed (h.keeps_attempt _ _ _)

theorem attemptsOf_own {r a : ReceiptRead σ} (ha : a ∈ attemptsOf h hash r) :
    a = (h.attempt (h.transport.receipt hash)).runFrom a.start := by
  obtain ⟨k, -, hmakes⟩ := h.backoff.exists_makes RpcError.isPassing
    (h.attempt (h.transport.receipt hash)) r.start
  rw [attemptsOf, hmakes.runs_eq] at ha
  obtain ⟨n, -, rfl⟩ := List.mem_map.mp ha
  cases n <;> rfl

theorem asks_read (h : Handle σ) (hash : Hash) (w : World σ) :
    Asks (Exchange.IsFor "eth_getTransactionReceipt" [hash.toJson])
      (Exchange.value? (Json.readOption Receipt.read)) (max 1 h.backoff.attempts.toNat)
      ((attemptsOf h hash ((h.receipt hash).runFrom w)).flatMap (exchangesOf h hash))
      ((h.receipt hash).run w).1 := by
  have hcall : Accounts (h.transcribed.receipt hash) (h.receipt hash)
      (Asks (Exchange.IsFor "eth_getTransactionReceipt" [hash.toJson])
        (Exchange.value? (Json.readOption Receipt.read)) (max 1 h.backoff.attempts.toNat)) :=
    Handle.accounts_retrying (h.transport.accounts_ask _ _ _) repeatable_asks
  obtain ⟨es, hes, hasks⟩ := hcall none w
  have hkeeps : Transcribes (h.transcribed.receipt hash) (h.receipt hash) none w _ :=
    keeps_exchanges h hash w
  rw [← hkeeps.transcript, hes.transcript]
  exact hasks

theorem length_flatMap_attemptsOf_le (rs : List (ReceiptRead σ)) :
    (rs.flatMap (attemptsOf h hash)).length ≤ rs.length * max 1 h.backoff.attempts.toNat := by
  induction rs with
  | nil => simp
  | cons r rest ih =>
    have hfirst : (attemptsOf h hash r).length ≤ max 1 h.backoff.attempts.toNat :=
      h.backoff.length_runs_le _ _ _
    rw [List.flatMap_cons, List.length_append, List.length_cons, Nat.add_mul, Nat.one_mul]
    omega

/-- The attempts of reads and what is exchanged in them. -/
theorem asksBy_of_reads {rs : List (ReceiptRead σ)} {o : Outcome TransactionError Receipt}
    (hwaits : WaitsBy h hash polls interval most w rs o v) :
    AsksBy h hash most rs (rs.flatMap (attemptsOf h hash))
      ((rs.flatMap (attemptsOf h hash)).flatMap (exchangesOf h hash)) where
  attempts_eq := rfl
  made r hr := by
    obtain ⟨k, hleast, hmakes⟩ := h.backoff.exists_makes RpcError.isPassing
      (h.attempt (h.transport.receipt hash)) r.start
    have hruns : attemptsOf h hash r = (List.range k).map
        (h.backoff.attemptAfter (h.attempt (h.transport.receipt hash)) r.start) := hmakes.runs_eq
    refine ⟨k, hleast, hruns, h.backoff.attemptAfter (h.attempt (h.transport.receipt hash))
      r.start (k - 1), ?_, ?_⟩
    · rw [hruns, List.getLast?_map, List.getLast?_range, if_neg (Nat.ne_of_gt hleast.1.1)]
      rfl
    · have hrun : (h.receipt hash).run r.start = _ := hmakes.run_eq
      rw [hwaits.retried r hr, runFrom, hrun]
      exact ⟨rfl, rfl⟩
  length_le := Nat.le_trans (length_flatMap_attemptsOf_le rs)
    (Nat.mul_le_mul_right _ hwaits.length_le)
  exchanges_eq := rfl
  told a ha := by
    obtain ⟨r, -, hr⟩ := List.mem_flatMap.mp ha
    have htold := h.told_attempt "eth_getTransactionReceipt" [hash.toJson]
      (Json.readOption Receipt.read) a.start
    have hown := attemptsOf_own hr
    rw [hown]
    exact htold
  asked r hr := by
    have hasks := asks_read h hash r.start
    rw [hwaits.retried r hr]
    exact hasks

/-- A receipt is read for so often at most, each time under the policy of the handle. The
first read that does not find it still pending decides: by the receipt, or by the failure
that it came to. Only when all the reads found it pending is the wait given up. Between
two reads lies the interval, and none before the first or behind the last. Each attempt at
a read asks the node once for this receipt, if an endpoint answers, and its reply decides. -/
theorem a_receipt_is_awaited_by_bounded_reads (h : Handle σ) (hash : Hash) (polls : UInt32)
    (interval : Nat) (w₀ : World σ) :
    WaitsBy h hash polls interval polls.toNat w₀ (reads h hash polls interval w₀)
      ((waitForReceipt h hash polls interval).run w₀).1
      ((waitForReceipt h hash polls interval).run w₀).2 ∧
    AsksBy h hash polls.toNat (reads h hash polls interval w₀)
      (attempts h hash polls interval w₀)
      ((waitForReceipt h.transcribed hash polls interval).transcript w₀) := by
  obtain ⟨rs, hwaits, hkeeps⟩ := exists_reads h hash polls interval polls.toNat w₀
  have hreads : reads h hash polls interval w₀ =
      rs.flatMap fun r => [(h.receipt hash).runFrom r.start] :=
    congrArg (fun r => r.2.node.runs) (hkeeps keeping_recorded (keeps_recorded _) [])
  have hattempts : attempts h hash polls interval w₀ = rs.flatMap (attemptsOf h hash) :=
    congrArg (fun r => r.2.node.runs) (hkeeps keeping_recorded (keeps_attempts h hash) [])
  have hexchanges : (waitForReceipt h.transcribed hash polls interval).transcript w₀ =
      (rs.flatMap (attemptsOf h hash)).flatMap (exchangesOf h hash) := by
    rw [waitForReceipt, pollFrom_eq, List.flatMap_assoc]
    have hkept : Transcribes (awaitBy (h.transcribed.receipt hash) hash polls interval polls.toNat)
        (awaitBy (h.receipt hash) hash polls interval polls.toNat) none w₀ _ :=
      hkeeps keeping_transcribed (keeps_exchanges h hash)
    exact hkept.transcript
  rw [hreads, flatMap_runFrom hwaits.retried, hattempts, hexchanges, waitForReceipt, pollFrom_eq]
  exact ⟨hwaits, asksBy_of_reads hwaits⟩

/-- A node that gives these replies one after another, and none behind them; two attempts
at each call. -/
def replying : Handle (List (Except RpcError Json)) where
  transport := .ofSend "http://a" (fun _ _ s => ⟨s.head?, 5, s.tail⟩)
    fun _ _ s => ⟨some (.ok []), 5, s⟩
  timeout := 1000
  backoff := ⟨2, 100, 1000⟩

/-- The receipt of a transaction in the first block. -/
def mined : Receipt := ⟨⟨7⟩, some 1, some 21000, some 1⟩

/-- Behind a failing gateway the transaction is pending, and then it is mined. -/
def minedLate : List (Except RpcError Json) :=
  [.error (.http 502 "HTTP 502 Bad Gateway"), .ok (.obj [("result", .null)]),
    .ok (.obj [("result", mined.toJson)])]

/-- The second of three reads finds the receipt, two seconds after the first had found none,
and the node is asked for it three times in all. -/
theorem a_receipt_is_found_behind_a_pending_reply :
    WaitsBy replying ⟨7⟩ 3 2000 3 (.start minedLate) (reads replying ⟨7⟩ 3 2000 (.start minedLate))
      (.done mined) ((waitForReceipt replying ⟨7⟩ 3 2000).run (.start minedLate)).2 ∧
    AsksBy replying ⟨7⟩ 3 (reads replying ⟨7⟩ 3 2000 (.start minedLate))
      (attempts replying ⟨7⟩ 3 2000 (.start minedLate))
      (minedLate.map fun reply => .single
        (Rpc.request "eth_getTransactionReceipt" (some (.arr [Hash.toJson ⟨7⟩]))) (some reply)) ∧
    (reads replying ⟨7⟩ 3 2000 (.start minedLate)).map (fun r => (r.start.clock, r.outcome)) =
      [(0, .done none), (2110, .done (some mined))] ∧
    (attempts replying ⟨7⟩ 3 2000 (.start minedLate)).map (·.outcome) =
      [.failed (.http 502 "HTTP 502 Bad Gateway"), .done none, .done (some mined)] := by
  have ⟨hwaits, hasks⟩ := a_receipt_is_awaited_by_bounded_reads replying ⟨7⟩ 3 2000
    (.start minedLate)
  have houtcome : ((waitForReceipt replying ⟨7⟩ 3 2000).run (.start minedLate)).1 =
      .done mined :=
    (hwaits.receipt_iff mined).mpr ⟨_, rfl, rfl⟩
  have hexchanged : (waitForReceipt replying.transcribed ⟨7⟩ 3 2000).transcript
      (.start minedLate) = minedLate.map fun reply => .single
        (Rpc.request "eth_getTransactionReceipt" (some (.arr [Hash.toJson ⟨7⟩]))) (some reply) := by
    rw [hasks.exchanges_eq]
    rfl
  rw [houtcome] at hwaits
  rw [hexchanged] at hasks
  exact ⟨hwaits, hasks, rfl, rfl⟩

end TransactionBuilder

end ChainAccess
