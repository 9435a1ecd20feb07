import ChainAccess.Proofs.Workflow.Requests
import ChainAccess.Proofs.Workflow.Transcripts
-- The transcripts of calls under a policy of attempts: what holds of a single
-- attempt at an operation and of one more attempt before others holds of the
-- whole call. A call that asks one thing asks it once in each attempt, and
-- comes to a value just when the last answer gives it.

namespace ChainAccess

open Workflow

variable {σ α β : Type}

/-! ## Exchanges -/

namespace Exchange

/-- The method that a single request names. -/
def method? : Exchange → Option String
  | .single request _ => (request.get? "method").bind Json.asStr?
  | .batch _ _ => none

/-- What the answer to a single request gives. -/
def value? (read : Json.Read α) : Exchange → Option α
  | .single _ (some (.ok answer)) => (Rpc.result answer).toOption.bind fun v => (read v).toOption
  | _ => none

/-- The exchange is about this request. -/
def IsFor (method : String) (params : List Json) (x : Exchange) : Prop :=
  ∃ reply, x = .single (Rpc.request method (some (.arr params))) reply

theorem IsFor.method? {method : String} {params : List Json} {x : Exchange}
    (h : x.IsFor method params) : x.method? = some method := by
  obtain ⟨reply, rfl⟩ := h
  rfl

end Exchange

namespace Transport

variable {t : Transport σ}

theorem transcribes_exchange_quiet {call : Option Nat → σ → Reply σ α} {d : Option Nat}
    {w : World σ} :
    Transcribes
      (exchange fun left (s : Transcribed σ) =>
        ⟨(call left s.node).answer, (call left s.node).elapsed, ⟨(call left s.node).node,
          s.transcript⟩⟩)
      (exchange call) d w [] := by
  intro past
  simp only [exchange, World.transcribed]
  rcases (call (d.map (· - w.clock)) w.node).answer with _ | _ | _ <;> simp

theorem transcribes_exchange {call : Option Nat → σ → Reply σ α}
    {entry : Option (Except RpcError α) → Exchange} {d : Option Nat} {w : World σ} :
    Transcribes
      (exchange fun left (s : Transcribed σ) =>
        ⟨(call left s.node).answer, (call left s.node).elapsed, ⟨(call left s.node).node,
          s.transcript ++ [entry (call left s.node).answer]⟩⟩)
      (exchange call) d w [entry (exchange call d w).1.answer?] := by
  intro past
  rw [exchange_answer?]
  simp only [exchange, World.transcribed]
  rcases (call (d.map (· - w.clock)) w.node).answer with _ | _ | _ <;> simp

theorem accounts_note (e : Event) :
    Accounts (note e) (note e : Workflow σ RpcError Unit) fun es o => es = [] ∧ o = .done () :=
  fun _ _ => ⟨[], transcribes_change fun _ => rfl, rfl, rfl⟩

theorem accounts_ensureConnected (t : Transport σ) :
    Accounts t.transcribed.ensureConnected t.ensureConnected fun es _ => es = [] := by
  unfold ensureConnected
  have hconnect : Accounts (exchange t.transcribed.connect) (exchange t.connect)
      fun es _ => es = [] :=
    fun _ _ => ⟨[], transcribes_exchange_quiet, rfl⟩
  refine hconnect.caught.bind (fun es r hr => ?_) (fun _ _ h => h.elim) (fun _ h => h)
  cases r with
  | ok u =>
    obtain rfl : es = [] := hr
    exact (accounts_note _).mono fun _ _ h => h.1
  | error e =>
    obtain rfl : es = [] := hr
    refine (accounts_note _).bind (fun fs _ hfs => ?_) (fun _ _ h => by simpa using h.1)
      (fun _ h => by simpa using h.1)
    obtain ⟨rfl, -⟩ := hfs
    exact accounts_fail rfl

theorem accounts_currentUrl (t : Transport σ) :
    Accounts t.transcribed.currentUrl t.currentUrl fun es _ => es = [] :=
  fun _ w => ⟨[], fun past => by
    show (Outcome.done (t.url w.node), w.transcribed past) = _
    rw [List.append_nil]
    rfl, rfl⟩

theorem accounts_reportFailure (t : Transport σ) (url : String) :
    Accounts (t.transcribed.reportFailure url) (t.reportFailure url) fun es _ => es = [] := by
  refine (accounts_note _).bind (fun es _ hes => ?_) (fun _ _ h => h.1) (fun _ h => h.1)
  obtain ⟨rfl, -⟩ := hes
  exact fun _ _ => ⟨[], transcribes_exchange_quiet, rfl⟩

theorem accounts_sendRequest (t : Transport σ) (method : String) (params : Option Json) :
    Accounts (t.transcribed.sendRequest method params) (t.sendRequest method params)
      fun es o => es = [.single (Rpc.request method params) o.answer?] := by
  refine (accounts_note _).bind (fun es _ hes => ?_) (fun _ _ h => nomatch h.2)
    (fun _ h => nomatch h.2)
  obtain ⟨rfl, -⟩ := hes
  exact fun _ _ => ⟨_, transcribes_exchange, rfl⟩

theorem accounts_sendRequests (t : Transport σ) (requests : List Json) :
    Accounts (t.transcribed.sendRequests requests) (t.sendRequests requests)
      fun es o => es = [.batch requests o.answer?] := by
  refine (accounts_note _).bind (fun es _ hes => ?_) (fun _ _ h => nomatch h.2)
    (fun _ h => nomatch h.2)
  obtain ⟨rfl, -⟩ := hes
  exact fun _ _ => ⟨_, transcribes_exchange, rfl⟩

end Transport

/-! ## Calls that ask one thing -/

/-- At most `n` exchanges were made, and `Q` holds of each. -/
def AtMost (Q : Exchange → Prop) (n : Nat) (es : List Exchange) (_ : Outcome RpcError α) : Prop :=
  es.length ≤ n ∧ ∀ x ∈ es, Q x

/-- At most `n` exchanges were made, `Q` holds of each, and no value came without
one. -/
structure AsksUpTo (Q : Exchange → Prop) (n : Nat) (es : List Exchange) (o : Outcome RpcError α) :
    Prop where
  atMost : AtMost Q n es o
  asked : ∀ a, o = .done a → es ≠ []

/-- At most `n` exchanges were made, `Q` holds of each, and a value came of
them just when the last one gives it. -/
structure Asks (Q : Exchange → Prop) (value? : Exchange → Option α) (n : Nat)
    (es : List Exchange) (o : Outcome RpcError α) : Prop where
  atMost : AtMost Q n es o
  done_iff : ∀ a, o = .done a ↔ es.getLast?.bind value? = some a

/-- At most `n` exchanges were made, `Q` holds of each, and a value came of
them just when one of them gives it and none before it gives any. -/
structure Finds (Q : Exchange → Prop) (value? : Exchange → Option α) (n : Nat)
    (es : List Exchange) (o : Outcome RpcError α) : Prop where
  atMost : AtMost Q n es o
  done_iff : ∀ a, o = .done a ↔ es.findSome? value? = some a

theorem asks_single {Q : Exchange → Prop} {value? : Exchange → Option α} {x : Exchange}
    {o : Outcome RpcError α} (hx : Q x) (ho : ∀ a, o = .done a ↔ value? x = some a) :
    Asks Q value? 1 [x] o :=
  ⟨⟨by simp, by simpa using hx⟩, by simpa using ho⟩

/-- A request for one thing is exchanged once, whatever it comes to. -/
theorem Transport.accounts_ask_once (t : Transport σ) (method : String) (params : List Json)
    (read : Json.Read α) :
    Accounts (t.transcribed.ask method params read) (t.ask method params read) fun es o =>
      es.length = 1 ∧ Asks (Exchange.IsFor method params) (Exchange.value? read) 1 es o := by
  unfold ask
  have hone : ∀ (reply : Option (Except RpcError Json)) (o : Outcome RpcError α),
      (∀ a, o = .done a ↔
        (Exchange.single (Rpc.request method (some (.arr params))) reply).value? read = some a) →
      [Exchange.single (Rpc.request method (some (.arr params))) reply].length = 1 ∧
      Asks (Exchange.IsFor method params) (Exchange.value? read) 1
        [.single (Rpc.request method (some (.arr params))) reply] o :=
    fun reply o ho => ⟨rfl, asks_single ⟨reply, rfl⟩ ho⟩
  refine (accounts_sendRequest t method _).bind (fun es answer hes => ?_) (fun es e hes => ?_)
    (fun es hes => ?_) <;> subst hes
  · refine accounts_ofExcept_bind (fun v hv => ?_) fun e he => ?_
    · cases hread : read v with
      | error f =>
        exact accounts_fail (hone _ _ fun a => by
          simp [Exchange.value?, Outcome.answer?, hv, hread, Except.toOption])
      | ok b =>
        exact accounts_value (hone _ _ fun a => by
          simp [Exchange.value?, Outcome.answer?, hv, hread, Except.toOption])
    · exact hone _ _ fun a => by simp [Exchange.value?, Outcome.answer?, he, Except.toOption]
  · exact hone _ _ fun a => by simp [Exchange.value?, Outcome.answer?]
  · exact hone _ _ fun a => by simp [Exchange.value?, Outcome.answer?]

theorem Transport.accounts_ask (t : Transport σ) (method : String) (params : List Json)
    (read : Json.Read α) :
    Accounts (t.transcribed.ask method params read) (t.ask method params read)
      (Asks (Exchange.IsFor method params) (Exchange.value? read) 1) :=
  (t.accounts_ask_once method params read).mono fun _ _ h => h.2

theorem Transport.accounts_ask_finds (t : Transport σ) (method : String) (params : List Json)
    (read : Json.Read α) :
    Accounts (t.transcribed.ask method params read) (t.ask method params read)
      (Finds (Exchange.IsFor method params) (Exchange.value? read) 1) := by
  refine (t.accounts_ask_once method params read).mono fun es o hes => ?_
  obtain ⟨hone, hasks⟩ := hes
  obtain ⟨x, rfl⟩ := List.length_eq_one_iff.mp hone
  refine ⟨hasks.atMost, fun a => ?_⟩
  rw [hasks.done_iff a]
  simp

theorem Transport.asksOnly_ask (t : Transport σ) (method : String) (params : List Json)
    (read : Json.Read α) :
    AsksOnly (Exchange.IsFor method params) (t.transcribed.ask method params read)
      (t.ask method params read) :=
  (t.accounts_ask method params read).mono fun _ _ h => h.atMost.2

/-! ## Attempts -/

/-- What holds of one attempt, whatever it comes to, holds of more of them too:
of an attempt that asked nothing, of one that was cut off and failed for it, and
of one that failed before the others. -/
structure Repeatable (P : Nat → List Exchange → Outcome RpcError α → Prop) : Prop where
  mono : ∀ n k es o, n ≤ k → P n es o → P k es o
  silent : ∀ o, (∀ a, o ≠ .done a) → P 1 [] o
  late : ∀ es o, (∀ a, o ≠ .done a) → P 1 es .expired → P 1 es o
  more : ∀ n es fs e o, P 1 es (.failed e) → P n fs o → P (n + 1) (es ++ fs) o

variable {Q : Exchange → Prop}

theorem repeatable_only :
    Repeatable fun _ es (_ : Outcome RpcError α) => ∀ x ∈ es, Q x where
  mono _ _ _ _ _ h := h
  silent _ _ := by simp
  late _ _ _ h := h
  more _ es fs _ _ h h' x hx := by
    rcases List.mem_append.mp hx with hx | hx
    · exact h x hx
    · exact h' x hx

theorem repeatable_atMost : Repeatable (AtMost Q : Nat → _ → Outcome RpcError α → Prop) where
  mono _ _ _ _ hnk h := ⟨Nat.le_trans h.1 hnk, h.2⟩
  silent _ _ := ⟨by simp, by simp⟩
  late _ _ _ h := h
  more n es fs e o h h' := by
    refine ⟨?_, repeatable_only.more n es fs e o h.2 h'.2⟩
    have := h.1
    have := h'.1
    rw [List.length_append]
    omega

theorem repeatable_asksUpTo : Repeatable (AsksUpTo Q : Nat → _ → Outcome RpcError α → Prop) where
  mono n k es o hnk h := ⟨repeatable_atMost.mono n k es o hnk h.atMost, h.asked⟩
  silent o ho := ⟨repeatable_atMost.silent o ho, fun a ha => absurd ha (ho a)⟩
  late es o ho h := ⟨h.atMost, fun a ha => absurd ha (ho a)⟩
  more n es fs e o h h' := by
    refine ⟨repeatable_atMost.more n es fs e o h.atMost h'.atMost, fun a ha => ?_⟩
    simp [h'.asked a ha]

theorem repeatable_asks {value? : Exchange → Option α} : Repeatable (Asks Q value?) where
  mono n k es o hnk h := ⟨repeatable_atMost.mono n k es o hnk h.atMost, h.done_iff⟩
  silent o ho := ⟨repeatable_atMost.silent o ho, fun a => by simpa using ho a⟩
  late es o ho h := by
    refine ⟨h.atMost, fun a => ?_⟩
    rw [← h.done_iff a]
    simpa using ho a
  more n es fs e o h h' := by
    refine ⟨repeatable_atMost.more n es fs e o h.atMost h'.atMost, fun a => ?_⟩
    -- what came of the earlier attempt gives no value
    have hno := h.done_iff a
    rw [h'.done_iff a]
    cases hfs : fs.getLast? with
    | some x => simp [List.getLast?_append, hfs]
    | none => simpa [List.getLast?_append, hfs] using hno

theorem Finds.eq_none {value? : Exchange → Option α} {n : Nat} {es : List Exchange}
    {o : Outcome RpcError α} (h : Finds Q value? n es o) (ho : ∀ a, o ≠ .done a) :
    es.findSome? value? = none := by
  by_contra hsome
  obtain ⟨a, ha⟩ := Option.ne_none_iff_exists'.mp hsome
  exact ho a ((h.done_iff a).mpr ha)

theorem repeatable_finds {value? : Exchange → Option α} : Repeatable (Finds Q value?) where
  mono n k es o hnk h := ⟨repeatable_atMost.mono n k es o hnk h.atMost, h.done_iff⟩
  silent o ho := ⟨repeatable_atMost.silent o ho, fun a => by simpa using ho a⟩
  late es o ho h := by
    refine ⟨h.atMost, fun a => ?_⟩
    rw [← h.done_iff a]
    simpa using ho a
  more n es fs e o h h' := by
    refine ⟨repeatable_atMost.more n es fs e o h.atMost h'.atMost, fun a => ?_⟩
    -- what came of the earlier attempt gives no value
    have hnone := h.eq_none fun b => by simp
    rw [h'.done_iff a, List.findSome?_append, hnone, Option.none_or]

namespace Handle

variable {h : Handle σ} {op : Workflow σ RpcError α} {op' : Workflow (Transcribed σ) RpcError α}
  {P : Nat → List Exchange → Outcome RpcError α → Prop}

theorem accounts_bestUrl (h : Handle σ) :
    Accounts h.transcribed.bestUrl h.bestUrl fun es _ => es = [] := by
  refine (h.transport.accounts_ensureConnected).bind (fun es _ hes => ?_) (fun _ _ h => h)
    (fun _ h => h)
  obtain rfl : es = [] := hes
  exact h.transport.accounts_currentUrl

theorem accounts_expire (h : Handle σ) (url : String) :
    Accounts (h.transcribed.expire url) (h.expire url : Workflow σ RpcError α)
      fun es o => es = [] ∧ ∀ a, o ≠ .done a := by
  refine (h.transport.accounts_reportFailure url).caught.bind (fun es r hr => ?_)
    (fun _ _ h => h.elim) (fun _ h => ⟨h, by simp⟩)
  obtain rfl : es = [] := by cases r <;> exact hr
  exact accounts_fail ⟨rfl, by simp⟩

theorem accounts_attempt (hop : Accounts op' op (P 1)) (hP : Repeatable P) :
    Accounts (h.transcribed.attempt op') (h.attempt op) (P 1) := by
  refine h.accounts_bestUrl.bind (fun es url hes => ?_) (fun es e hes => ?_) (fun es hes => ?_)
  · obtain rfl : es = [] := hes
    refine hop.within h.timeout (fun _ _ h => h) fun es hes => ?_
    refine (h.accounts_expire url).mono fun fs o hfs => ?_
    obtain ⟨rfl, ho⟩ := hfs
    rw [List.nil_append, List.append_nil]
    exact hP.late es o ho hes
  · obtain rfl : es = [] := hes
    exact hP.silent _ (by simp)
  · obtain rfl : es = [] := hes
    exact hP.silent _ (by simp)

theorem accounts_sleep (ms : Nat) :
    Accounts (sleep ms) (sleep ms : Workflow σ RpcError Unit)
      fun es o => es = [] ∧ ∀ e, o ≠ .failed e := by
  refine (Transport.accounts_note _).bind (fun es _ hes => ?_) (fun _ _ h => nomatch h.2)
    (fun _ h => nomatch h.2)
  obtain ⟨rfl, -⟩ := hes
  exact fun d w => ⟨[], transcribes_pass ms, rfl, fun e => by
    unfold Workflow.pass
    cases d with
    | none => simp
    | some limit => dsimp only; split <;> simp⟩

/-- The attempts from the one on that follows `n` failed ones. -/
theorem accounts_attemptsFrom {b : Backoff} (hop : Accounts op' op (P 1)) (hP : Repeatable P)
    (left : Nat) (n : UInt32) (hleft : n.toNat + left = b.attempts.toNat) :
    Accounts (b.attemptsFrom RpcError.isPassing op' left n)
      (b.attemptsFrom RpcError.isPassing op left n) (P (max 1 left)) := by
  induction left generalizing n with
  | zero => exact hop
  | succ left ih =>
    have hone : ∀ es o, P 1 es o → P (max 1 (left + 1)) es o :=
      fun es o => hP.mono _ _ es o (by omega)
    refine hop.caught.bind (fun es r hr => ?_) (fun _ _ h => h.elim) (fun es h => hone es _ h)
    cases r with
    | ok a => exact accounts_value (by simpa using hone es _ hr)
    | error e =>
      have hfail : P (max 1 (left + 1)) (es ++ []) (.failed e) := by simpa using hone es _ hr
      dsimp only
      by_cases hagain : RpcError.isPassing e = true
      · by_cases hlast : b.attempts ≤ n + 1
        · simp only [hagain, hlast, if_true, Bool.not_true]
          exact accounts_fail hfail
        · have hsmall := b.attempts.toNat_lt
          have hnext : (n + 1).toNat = n.toNat + 1 := by
            rw [UInt32.toNat_add]
            exact Nat.mod_eq_of_lt (by simp; omega)
          have hlt : n.toNat + 1 < b.attempts.toNat := by
            rw [← hnext, ← UInt32.lt_iff_toNat_lt]
            simpa using hlast
          simp only [hagain, hlast, if_false, Bool.not_true]
          have hmax : max 1 (left + 1) = max 1 left + 1 := by omega
          rw [hmax]
          refine (accounts_sleep _).bind (fun fs _ hfs => ?_) (fun _ e h => absurd rfl (h.2 e))
            (fun fs hfs => ?_)
          · obtain ⟨rfl, -⟩ := hfs
            refine (ih (n + 1) (by omega)).mono fun gs o hgs => ?_
            rw [List.nil_append]
            exact hP.more _ _ _ e _ hr hgs
          · obtain ⟨rfl, -⟩ := hfs
            exact hP.more _ _ _ e _ hr (hP.mono _ _ _ _ (by omega) (hP.silent _ (by simp)))
      · simp only [hagain]
        exact accounts_fail hfail

/-- What holds of one attempt and of more of them holds of a call under the
policy, which makes so many at most. -/
theorem accounts_retrying (hop : Accounts op' op (P 1)) (hP : Repeatable P) :
    Accounts (h.transcribed.retrying op') (h.retrying op) (P (max 1 h.backoff.attempts.toNat)) :=
  accounts_attemptsFrom (accounts_attempt hop hP) hP _ 0 (by simp)

theorem asksOnly_retrying {Q : Exchange → Prop} (hop : AsksOnly Q op' op) :
    AsksOnly Q (h.transcribed.retrying op') (h.retrying op) :=
  accounts_retrying (P := fun _ es _ => ∀ x ∈ es, Q x) hop repeatable_only

end Handle

end ChainAccess
