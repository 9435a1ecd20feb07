import ChainAccess.Proofs.Handle.Schedule
import ChainAccess.Proofs.Handle.Transcripts
import Mathlib.Tactic.Common
-- Which replies decide a call under a policy. One attempt asks the endpoint that it found
-- once, and what the transport replies within the time of an attempt decides it; without
-- an endpoint nothing is asked. What is kept of each attempt is kept of the whole call,
-- attempt by attempt.

namespace ChainAccess

open Workflow

/-! ## Runs with something kept -/

section

variable {σ τ ε α β : Type} {keep : World σ → List β → World τ}

/-- A way to keep a list beside a world, whatever time passes. -/
def Keeping (keep : World σ → List β → World τ) : Prop :=
  ∀ w past ms, (keep w past).rested ms = keep (w.rested ms) past

namespace Workflow

/-- From `w` on, `m'` does what `m` does and adds to what is kept. -/
def Keeps (keep : World σ → List β → World τ) (m' : Workflow τ ε α) (m : Workflow σ ε α)
    (w : World σ) (added : List β) : Prop :=
  ∀ past, m'.run (keep w past) = ((m.run w).1, keep (m.run w).2 (past ++ added))

theorem keeping_recorded :
    Keeping (World.recorded : World σ → List (OperationRun σ ε α) → _) := fun _ _ _ => rfl

theorem keeping_transcribed : Keeping (World.transcribed : World σ → _ → _) := fun _ _ _ => rfl

theorem keeps_recorded (op : Workflow σ ε α) (w : World σ) :
    Keeps World.recorded op.recorded op w [op.runFrom w] := fun _ => rfl

/-- Runs from where they began are what they were. -/
theorem flatMap_runFrom {op : Workflow σ ε α} {rs : List (OperationRun σ ε α)}
    (h : ∀ r ∈ rs, r = op.runFrom r.start) : rs.flatMap (fun r => [op.runFrom r.start]) = rs := by
  rw [← List.map_eq_flatMap]
  exact (List.map_congr_left fun r hr => (h r hr).symm).trans (List.map_id' rs)

end Workflow

namespace Backoff

variable {b : Backoff} {again : ε → Bool} {op : Workflow σ ε α} {op' : Workflow τ ε α}
  {added : World σ → List β} {w : World σ}

/-- The attempts from one on, after `n` failed ones: whatever is kept of each is kept of
them all in turn. -/
theorem exists_attempts (b : Backoff) (again : ε → Bool) (op : Workflow σ ε α) (left : Nat)
    (n : UInt32) (w : World σ) :
    ∃ as : List (OperationRun σ ε α), (∀ a ∈ as, a = op.runFrom a.start) ∧
      ∀ {τ β : Type} {keep : World σ → List β → World τ} {op' : Workflow τ ε α}
        {added : World σ → List β}, Keeping keep → (∀ w, Keeps keep op' op w (added w)) →
        Keeps keep (b.attemptsFrom again op' left n) (b.attemptsFrom again op left n) w
          (as.flatMap fun a => added a.start) := by
  have hone : ∀ w, ∀ a ∈ [op.runFrom w], a = op.runFrom a.start := by simp [runFrom]
  induction left generalizing n w with
  | zero =>
    refine ⟨[op.runFrom w], hone w, fun _ hop => ?_⟩
    rw [List.flatMap_singleton]
    exact hop w
  | succ left ih =>
    rcases hrun : op.run w with ⟨o, v⟩
    by_cases hmore : ∃ e, o = .failed e ∧ again e = true ∧ n + 1 < b.attempts
    · obtain ⟨e, rfl, hagain⟩ := hmore
      obtain ⟨as, hown, has⟩ := ih (n + 1) (v.rested (b.delay (n + 1)))
      refine ⟨op.runFrom w :: as, List.forall_mem_cons.mpr ⟨rfl, hown⟩, fun hkeep hop past => ?_⟩
      have hfirst := hop w past
      rw [hrun] at hfirst
      rw [attemptsFrom_run, attemptsFrom_run, hfirst, hrun]
      dsimp only
      rw [if_pos hagain, if_pos hagain, hkeep, has hkeep hop, List.flatMap_cons,
        List.append_assoc]
      rfl
    · refine ⟨[op.runFrom w], hone w, fun _ hop past => ?_⟩
      have hfirst := hop w past
      rw [hrun] at hfirst
      rw [attemptsFrom_run, attemptsFrom_run, hfirst, hrun, List.flatMap_singleton]
      cases o with
      | failed e =>
        have hlast : ¬ (again e = true ∧ n + 1 < b.attempts) := fun h => hmore ⟨e, rfl, h⟩
        dsimp only
        rw [if_neg hlast, if_neg hlast]
        rfl
      | done a => rfl
      | expired => rfl

/-- What is kept of each attempt is kept of the call. -/
theorem keeps_run (hkeep : Keeping keep) (hop : ∀ w, Keeps keep op' op w (added w)) :
    Keeps keep (b.run again op') (b.run again op) w
      ((b.runs again op w).flatMap fun a => added a.start) := by
  obtain ⟨as, hown, has⟩ := b.exists_attempts again op b.attempts.toNat 0 w
  have hruns : b.runs again op w = as.flatMap fun a => [op.runFrom a.start] := by
    unfold runs Backoff.run
    rw [has keeping_recorded (keeps_recorded op) []]
    rfl
  rw [hruns, flatMap_runFrom hown]
  exact has hkeep hop

theorem keeps_runs (b : Backoff) (again : ε → Bool) (op : Workflow σ ε α) (w : World σ) :
    Keeps World.recorded (b.run again op.recorded) (b.run again op) w (b.runs again op w) := by
  have hrecord : Keeps World.recorded (b.run again op.recorded) (b.run again op) w _ :=
    keeps_run keeping_recorded (keeps_recorded op)
  have hruns : b.runs again op w = (b.runs again op w).flatMap fun a => [op.runFrom a.start] :=
    congrArg (fun r => r.2.node.runs) (hrecord [])
  rwa [← hruns] at hrecord

end Backoff

end

/-! ## Questions -/

section

variable {σ α : Type}

/-- The failure that a reply to a single request tells. -/
def Exchange.refusal? : Exchange → Option RpcError
  | .single _ (some (.ok answer)) =>
    match Rpc.result answer with
    | .ok _ => none
    | .error e => some e
  | .single _ (some (.error e)) => some e
  | _ => none

/-- What a question comes to is decided by the reply to it, if there is one in time. -/
structure Decided (request : Json) (read : Json.Read α)
    (reply : Option (Except RpcError Json)) (o : Outcome RpcError α) : Prop where
  done_iff : ∀ x, o = .done x ↔ (Exchange.single request reply).value? read = some x
  refused : ∀ e, (Exchange.single request reply).refusal? = some e → o = .failed e
  cut_off : o = .expired → reply = none

/-- What an attempt at a question asks, and what it comes to. -/
inductive Told (h : Handle σ) (request : Json) (read : Json.Read α)
    (a : OperationRun σ RpcError α) : List Exchange → Prop
  /-- No endpoint was found, and none is asked. -/
  | unconnected {e : RpcError} {u : World σ} :
      h.transport.ensureConnected.run a.start = (.failed e, u) → a.outcome = .failed e →
      Told h request read a []
  /-- The search for an endpoint was cut off. -/
  | lost {u : World σ} : h.transport.ensureConnected.run a.start = (.expired, u) →
      a.outcome = .expired → Told h request read a []
  /-- The endpoint is asked once, and its reply within the time of an attempt decides. -/
  | asked {u : World σ} {reply : Option (Except RpcError Json)} :
      h.transport.ensureConnected.run a.start = (.done (), u) →
      (h.transport.send request (some h.timeout) u.node).answer = reply →
      Decided request read reply a.outcome → Told h request read a [.single request reply]

theorem Decided.of_late {request : Json} {read : Json.Read α}
    {reply : Option (Except RpcError Json)} {o : Outcome RpcError α}
    (h : Decided request read reply .expired) (ho : ∀ x, o ≠ .done x) :
    Decided request read reply o := by
  obtain rfl := h.cut_off rfl
  exact ⟨fun x => iff_of_false (ho x) (by simp [Exchange.value?]),
    fun e he => by simp [Exchange.refusal?] at he, fun _ => rfl⟩

namespace Transport

/-- A request is exchanged for what the transport replies to it in the time that is left. -/
theorem transcribes_sendRequest (t : Transport σ) (method : String) (params : Option Json)
    (d : Option Nat) (w : World σ) :
    Transcribes (t.transcribed.sendRequest method params) (t.sendRequest method params) d w
      [.single (Rpc.request method params)
        (t.send (Rpc.request method params) (d.map (· - w.clock)) w.node).answer] := by
  obtain ⟨es, hes, rfl⟩ := t.accounts_sendRequest method params d w
  have hreply : (t.sendRequest method params d w).1.answer? =
      (t.send (Rpc.request method params) (d.map (· - w.clock)) w.node).answer :=
    exchange_answer? (t.send (Rpc.request method params)) d
      (w.note (.send (Rpc.request method params)))
  rwa [hreply] at hes

/-- What is made of an answer, once it is there. -/
theorem decided_of_answer {t : Transport σ} {method : String} {params : List Json}
    {read : Json.Read α} {d : Option Nat} {w v : World σ} {answer : Json} {es : List Exchange}
    (hsent : Transcribes (t.transcribed.sendRequest method (some (.arr params)))
      (t.sendRequest method (some (.arr params))) d w es)
    (hrun : t.sendRequest method (some (.arr params)) d w = (.done answer, v)) :
    Transcribes (t.transcribed.ask method params read) (t.ask method params read) d w es ∧
      Decided (Rpc.request method (some (.arr params))) read (some (.ok answer))
        (t.ask method params read d w).1 := by
  unfold ask
  rw [bind_of_done hrun]
  have hsame : ∀ {k' : Json → Workflow (Transcribed σ) RpcError α}
      {k : Json → Workflow σ RpcError α}, Transcribes (k' answer) (k answer) d v [] →
      Transcribes (t.transcribed.sendRequest method (some (.arr params)) >>= k')
        (t.sendRequest method (some (.arr params)) >>= k) d w es := by
    intro k' k hk
    have hbind := hsent.bind_done hrun hk
    rwa [List.append_nil] at hbind
  cases hresult : Rpc.result answer with
  | error e =>
    refine ⟨hsame ?_, ?_⟩
    · rw [ofExcept_bind_of_error hresult, ofExcept_bind_of_error hresult]
      exact transcribes_fail e
    · rw [ofExcept_bind_of_error rfl]
      refine ⟨fun x => ?_, fun e' he => ?_, fun ho => by cases ho⟩
      · simp [fail, Exchange.value?, hresult, Except.toOption]
      · simpa [fail, Exchange.refusal?, hresult] using he
  | ok result =>
    cases hread : read result with
    | error f =>
      refine ⟨hsame ?_, ?_⟩
      · rw [ofExcept_bind_of_ok hresult, ofExcept_bind_of_ok hresult, hread]
        exact transcribes_fail _
      · rw [ofExcept_bind_of_ok rfl, hread]
        refine ⟨fun x => ?_, fun e he => ?_, fun ho => by cases ho⟩
        · simp [fail, Exchange.value?, hresult, hread, Except.toOption]
        · simp [Exchange.refusal?, hresult] at he
    | ok a =>
      refine ⟨hsame ?_, ?_⟩
      · rw [ofExcept_bind_of_ok hresult, ofExcept_bind_of_ok hresult, hread]
        exact transcribes_value a
      · rw [ofExcept_bind_of_ok rfl, hread]
        refine ⟨fun x => ?_, fun e he => ?_, fun ho => by cases ho⟩
        · simp [pure, value, Exchange.value?, hresult, hread, Except.toOption]
        · simp [Exchange.refusal?, hresult] at he

/-- A question is exchanged once, and the reply in the time that is left decides it. -/
theorem exists_reply (t : Transport σ) (method : String) (params : List Json)
    (read : Json.Read α) (d : Option Nat) (w : World σ) :
    ∃ reply, (t.send (Rpc.request method (some (.arr params))) (d.map (· - w.clock))
        w.node).answer = reply ∧
      Transcribes (t.transcribed.ask method params read) (t.ask method params read) d w
        [.single (Rpc.request method (some (.arr params))) reply] ∧
      Decided (Rpc.request method (some (.arr params))) read reply
        (t.ask method params read d w).1 := by
  have hsent := t.transcribes_sendRequest method (some (.arr params)) d w
  have hreply : (t.sendRequest method (some (.arr params)) d w).1.answer? =
      (t.send (Rpc.request method (some (.arr params))) (d.map (· - w.clock)) w.node).answer :=
    exchange_answer? _ d (w.note (.send (Rpc.request method (some (.arr params)))))
  refine ⟨_, rfl, ?_⟩
  rw [← hreply] at hsent ⊢
  rcases hrun : t.sendRequest method (some (.arr params)) d w with ⟨answer | e | _, v⟩
  · rw [hrun] at hsent
    exact decided_of_answer hsent hrun
  · rw [hrun] at hsent
    refine ⟨hsent.bind_stopped (by simp [hrun]), ?_⟩
    have hask : t.ask method params read d w = (.failed e, v) :=
      bind_failed_iff.mpr (Or.inl hrun)
    rw [hask]
    refine ⟨fun x => ?_, fun e' he => ?_, fun ho => by cases ho⟩
    · simp [Outcome.answer?, Exchange.value?]
    · simpa [Outcome.answer?, Exchange.refusal?] using he
  · rw [hrun] at hsent
    refine ⟨hsent.bind_stopped (by simp [hrun]), ?_⟩
    have hask : t.ask method params read d w = (.expired, v) := by
      simp only [ask, Bind.bind, andThen, hrun]
    rw [hask]
    refine ⟨fun x => ?_, fun e he => ?_, fun _ => rfl⟩
    · simp [Outcome.answer?, Exchange.value?]
    · simp [Outcome.answer?, Exchange.refusal?] at he

end Transport

namespace Handle

/-- An attempt at a question on the endpoint that it found. -/
theorem told_of_connected {h : Handle σ} {method : String} {params : List Json}
    {read : Json.Read α} {w u : World σ}
    (hconnect : h.transport.ensureConnected.run w = (.done (), u)) :
    ∃ es, Transcribes (h.transcribed.attempt (h.transcribed.transport.ask method params read))
        (h.attempt (h.transport.ask method params read)) none w es ∧
      Told h (Rpc.request method (some (.arr params))) read
        ((h.attempt (h.transport.ask method params read)).runFrom w) es := by
  obtain ⟨_, hbest, rfl⟩ := h.accounts_bestUrl none w
  have hurl : h.bestUrl.run w = (.done (h.transport.url u.node), u) :=
    bind_done_iff.mpr ⟨(), u, hconnect, rfl⟩
  obtain ⟨reply, hreply, hask, hdecided⟩ :=
    h.transport.exists_reply method params read (some (u.clock + h.timeout)) u
  have hleft : (some (u.clock + h.timeout)).map (· - u.clock) = some h.timeout := by simp
  rw [hleft] at hreply
  rcases hrun : h.transport.ask method params read (some (u.clock + h.timeout)) u with ⟨o, v⟩
  have htry : h.Tries (h.transport.ask method params read) w (h.transport.url u.node) u o v :=
    ⟨hurl, hrun⟩
  rw [hrun] at hdecided
  by_cases hlate : o = .expired
  · subst hlate
    obtain ⟨_, hexpire, rfl, hnot⟩ :=
      h.accounts_expire (α := α) (h.transport.url u.node) none v
    refine ⟨_, hbest.bind_done hurl (hask.within_late hrun rfl hexpire), ?_⟩
    refine .asked hconnect hreply (hdecided.of_late ?_)
    rw [runFrom, htry.expire]
    exact hnot
  · refine ⟨_, hbest.bind_done hurl (hask.within_ended hrun hlate), ?_⟩
    refine .asked hconnect hreply ?_
    rw [runFrom, htry.attempt hlate]
    exact hdecided

/-- One attempt at a question, with what it exchanges. -/
theorem exists_told (h : Handle σ) (method : String) (params : List Json) (read : Json.Read α)
    (w : World σ) :
    ∃ es, Transcribes (h.transcribed.attempt (h.transcribed.transport.ask method params read))
        (h.attempt (h.transport.ask method params read)) none w es ∧
      Told h (Rpc.request method (some (.arr params))) read
        ((h.attempt (h.transport.ask method params read)).runFrom w) es := by
  rcases hconnect : h.transport.ensureConnected.run w with ⟨_ | e | _, u⟩
  · exact told_of_connected hconnect
  · obtain ⟨_, hbest, rfl⟩ := h.accounts_bestUrl none w
    have hurl : h.bestUrl none w = (.failed e, u) := bind_failed_iff.mpr (Or.inl hconnect)
    refine ⟨[], hbest.bind_stopped (by simp [hurl]), .unconnected hconnect ?_⟩
    rw [runFrom, attempt_of_unconnected hconnect]
  · obtain ⟨_, hbest, rfl⟩ := h.accounts_bestUrl none w
    have hurl : h.bestUrl none w = (.expired, u) := by
      have hexpired : h.transport.ensureConnected none w = (.expired, u) := hconnect
      simp only [bestUrl, Bind.bind, andThen, hexpired]
    refine ⟨[], hbest.bind_stopped (by simp [hurl]), .lost hconnect ?_⟩
    have hurl' : h.bestUrl.run w = (.expired, u) := hurl
    rw [runFrom, attempt_run, hurl']

/-- What an attempt at a question exchanges. -/
def exchangesFrom (h : Handle σ) (method : String) (params : List Json) (read : Json.Read α)
    (w : World σ) : List Exchange :=
  (h.transcribed.attempt (h.transcribed.transport.ask method params read)).transcript w

theorem keeps_attempt (h : Handle σ) (method : String) (params : List Json) (read : Json.Read α)
    (w : World σ) :
    Keeps World.transcribed
      (h.transcribed.attempt (h.transcribed.transport.ask method params read))
      (h.attempt (h.transport.ask method params read)) w
      (h.exchangesFrom method params read w) := by
  obtain ⟨es, hes, -⟩ := h.exists_told method params read w
  rw [exchangesFrom, hes.transcript]
  exact hes

theorem told_attempt (h : Handle σ) (method : String) (params : List Json) (read : Json.Read α)
    (w : World σ) :
    Told h (Rpc.request method (some (.arr params))) read
      ((h.attempt (h.transport.ask method params read)).runFrom w)
      (h.exchangesFrom method params read w) := by
  obtain ⟨es, hes, htold⟩ := h.exists_told method params read w
  rwa [exchangesFrom, hes.transcript]

end Handle

end

end ChainAccess
