import ChainAccess.Proofs.Pool.Departure
import ChainAccess.Proofs.Pool.Reports
import ChainAccess.Proofs.Pool.Resends
import Mathlib.Data.List.Basic
import Mathlib.Tactic.Common
-- The tries of one request. A task that sends a request tries the endpoint in
-- use, and whoever else moves the pool on meanwhile, it makes no more tries
-- than the pool has endpoints. It goes on to another try only after an answer
-- for which an endpoint is left, and what it comes back with is what its last
-- try brought, also when no other endpoint could be taken into use. On a line
-- a try is one request, or the same one twice.

namespace ChainAccess

/-- What a verdict comes to when no other endpoint is asked. -/
def Http.Verdict.result : Http.Verdict → Except RpcError Json
  | .final r => r
  | .leave failure => .error failure

namespace Pool

open Routine

variable {α β : Type}

/-! ## Tries -/

/-- A request of a task: where it went, what it was, and what came back. -/
structure Try where
  url : String
  body : Json
  answer : Http.Answer

/-- What a request comes back with when this is its last try. -/
def Try.outcome (x : Try) : Except RpcError Json :=
  match x.answer with
  | .failed message => .error (.connection (x.url ++ ": " ++ message))
  | .answered status body =>
    if Http.isSuccess status then
      match Json.parse? body with
      | some v => .ok v
      | none => .error (.request "Failed to parse JSON response: not a JSON text")
    else .error (.http status (Http.statusText status body))

theorem verdict_result (url : String) (body : Json) (a : Http.Answer) :
    (a.verdict url).result = Try.outcome ⟨url, body, a⟩ := by
  cases a with
  | failed message => rfl
  | answered status text =>
    unfold Http.Answer.verdict Try.outcome
    dsimp only
    by_cases hs : Http.isSuccess status = true
    · rw [if_pos hs, if_pos hs]
      cases Json.parse? text <;> rfl
    · rw [if_neg hs, if_neg hs]
      split <;> rfl

/-- At most `n` tries of one request, an endpoint left after each but the last. -/
structure Successive (n : Nat) (body : Json) (ts : List Try) : Prop where
  length_le : ts.length ≤ n
  same : ∀ x ∈ ts, x.body = body
  left : ∀ x ∈ ts.dropLast, x.answer.Leaves

theorem successive_nil (n : Nat) (body : Json) : Successive n body [] :=
  ⟨Nat.zero_le n, fun _ h => (nomatch h), fun _ h => (nomatch h)⟩

theorem Successive.snoc {n : Nat} {body : Json} {ts : List Try} (h : Successive n body ts)
    (hleft : ∀ x ∈ ts, x.answer.Leaves) (hlt : ts.length < n) (url : String) (a : Http.Answer) :
    Successive n body (ts ++ [⟨url, body, a⟩]) := by
  refine ⟨?_, ?_, ?_⟩
  · rw [List.length_append, List.length_singleton]
    exact hlt
  · intro x hx
    rcases List.mem_append.mp hx with hx | hx
    · exact h.same x hx
    · rw [List.mem_singleton.mp hx]
  · rw [List.dropLast_concat]
    exact hleft

/-! ## The tries of a routine -/

namespace Routine

variable {n : Nat} {P : List Try → Prop}

/-- Whatever the routine meets on pools of `n` endpoints after the tries `ts`:
each time it has made one more, all of them are as `P` has it, and it ends with
tries and a value as `Q` has it. -/
def Tries (n : Nat) (P : List Try → Prop) (Q : List Try → α → Prop) :
    Routine α → List Try → Prop
  | .done a, ts => Q ts a
  | .step _ next, ts => ∀ p : Pool, p.endpoints.length = n → (next p).Tries n P Q ts
  | .acquire next, ts => next.Tries n P Q ts
  | .release next, ts => next.Tries n P Q ts
  | .check _ _ next, ts => ∀ r, (next r).Tries n P Q ts
  | .update _ next, ts => ∀ r, (next r).Tries n P Q ts
  | .post url body next, ts =>
    ∀ a, P (ts ++ [⟨url, body, a⟩]) ∧ (next a).Tries n P Q (ts ++ [⟨url, body, a⟩])

theorem Tries.bind {Q : List Try → α → Prop} {R : List Try → β → Prop} {r : Routine α}
    {k : α → Routine β} {ts : List Try} (h : r.Tries n P Q ts)
    (hk : ∀ ts a, Q ts a → (k a).Tries n P R ts) : (r >>= k).Tries n P R ts := by
  induction r generalizing ts with
  | done a => exact hk ts a h
  | step change next ih => exact fun p hp => ih p (h p hp)
  | acquire next ih => exact ih h
  | release next ih => exact ih h
  | check place url next ih => exact fun r => ih r (h r)
  | update url next ih => exact fun r => ih r (h r)
  | post url body next ih => exact fun a => ⟨(h a).1, ih a (h a).2⟩

theorem Tries.imp {P' : List Try → Prop} {Q Q' : List Try → α → Prop} {r : Routine α}
    {ts : List Try} (h : r.Tries n P Q ts) (hP : ∀ ts, P ts → P' ts)
    (hQ : ∀ ts a, Q ts a → Q' ts a) : r.Tries n P' Q' ts := by
  induction r generalizing ts with
  | done a => exact hQ ts a h
  | step change next ih => exact fun p hp => ih p (h p hp)
  | acquire next ih => exact ih h
  | release next ih => exact ih h
  | check place url next ih => exact fun r => ih r (h r)
  | update url next ih => exact fun r => ih r (h r)
  | post url body next ih => exact fun a => ⟨hP _ (h a).1, ih a (h a).2⟩

/-- A routine that sends nothing ends with the tries that there were. -/
theorem tries_of_silent {r : Routine α} (h : r.EachPost fun _ _ _ => False)
    (P : List Try → Prop) (ts : List Try) : r.Tries n P (fun ts' _ => ts' = ts) ts := by
  induction r with
  | done a => exact rfl
  | step change next ih => exact fun p _ => ih p (h p)
  | acquire next ih => exact ih h
  | release next ih => exact ih h
  | check place url next ih => exact fun r => ih r (h r)
  | update url next ih => exact fun r => ih r (h r)
  | post url body next ih => exact fun a => (h a).1.elim

end Routine

/-! ## The tries of a request -/

section

variable {n : Nat} {body : Json}

/-- The value is what the last try brought. -/
def DecidedByLast (ts : List Try) (r : Except RpcError Json) : Prop :=
  ∃ x, ts.getLast? = some x ∧ r = x.outcome

theorem decidedByLast_snoc (ts : List Try) (url : String) (body : Json) (a : Http.Answer) :
    DecidedByLast (ts ++ [⟨url, body, a⟩]) (a.verdict url).result :=
  ⟨_, List.getLast?_concat, verdict_result url body a⟩

theorem tries_sendOnce_bind {P : List Try → Prop} {Q : List Try → β → Prop}
    {k : String × Http.Verdict → Routine β} {ts : List Try}
    (h : ∀ url a, P (ts ++ [⟨url, body, a⟩]) ∧
      (k (url, a.verdict url)).Tries n P Q (ts ++ [⟨url, body, a⟩])) :
    (sendOnce body >>= k).Tries n P Q ts :=
  fun p _ a => h p.activeUrl a

/-- Sending with `k` rotations left makes `k + 1` more tries at most. -/
theorem tries_sendWithin {k : Nat} {ts : List Try} (hts : Successive n body ts)
    (hleft : ∀ x ∈ ts, x.answer.Leaves) (hk : ts.length + k < n) :
    (sendWithin body k).Tries n (Successive n body) DecidedByLast ts := by
  -- on the rotations left; so far an endpoint was left after every try
  induction k generalizing ts with
  | zero =>
    refine tries_sendOnce_bind fun url a => ⟨hts.snoc hleft hk url a, ?_⟩
    have hend := decidedByLast_snoc ts url body a
    cases hv : a.verdict url with
    | final r =>
      rw [hv] at hend
      exact hend
    | leave failure =>
      rw [hv] at hend
      exact hend
  | succ k ih =>
    have hlt : ts.length < n := by omega
    refine tries_sendOnce_bind fun url a => ⟨hts.snoc hleft hlt url a, ?_⟩
    have hend := decidedByLast_snoc ts url body a
    cases hv : a.verdict url with
    | final r =>
      rw [hv] at hend
      exact hend
    | leave failure =>
      rw [hv] at hend
      have ha : a.Leaves := (a.leaves_iff url).mpr ⟨failure, hv⟩
      have hrotate := tries_of_silent (n := n) (rotate_sends_nothing url) (Successive n body)
        (ts ++ [⟨url, body, a⟩])
      refine hrotate.bind fun ts' left hts' => ?_
      subst hts'
      cases left with
      | error e => exact hend
      | ok u =>
        refine ih (hts.snoc hleft hlt url a) ?_ ?_
        · intro x hx
          rcases List.mem_append.mp hx with hx | hx
          · exact hleft x hx
          · rw [List.mem_singleton.mp hx]
            exact ha
        · simp only [List.length_append, List.length_singleton]
          omega

theorem tries_send (hn : 0 < n) (body : Json) :
    (send body).Tries n (Successive n body) DecidedByLast [] := by
  intro p hp
  refine tries_sendWithin (successive_nil n body) (fun _ h => (nomatch h)) ?_
  simp only [hp, List.length_nil]
  omega

end

/-! ## The tries of a call -/

namespace Call

/-- The tries are ones that the call may have made so far. -/
def MayHaveTried (n : Nat) (c : Call) (ts : List Try) : Prop :=
  ∀ body, c.body? = some body → Successive n body ts

/-- The call ends with what it makes of its last try. -/
def EndsBy (c : Call) (ts : List Try) (g : Except RpcError Gain) : Prop :=
  ∀ body, c.body? = some body → ∃ x, ts.getLast? = some x ∧ g = c.gain x.outcome

theorem tries {n : Nat} (hn : 0 < n) (c : Call) :
    c.routine.Tries n (c.MayHaveTried n) c.EndsBy [] := by
  have hquiet (P : List Try → Prop) {r : Routine (Except RpcError Gain)}
      (h : r.EachPost fun _ _ _ => False) (hc : c.body? = none) : r.Tries n P c.EndsBy [] :=
    (tries_of_silent h P []).imp (fun _ h => h) fun _ _ _ body hbody => by
      rw [hc] at hbody
      cases hbody
  have hone {body : Json} (hc : c.body? = some body) (ts : List Try)
      (h : Successive n body ts) : c.MayHaveTried n ts := by
    intro body' hbody'
    rw [hc] at hbody'
    cases hbody'
    exact h
  cases c with
  | ensure => exact hquiet _ (ensureConnected_sends_nothing.bind fun _ => trivial) rfl
  | rotate url => exact hquiet _ ((rotate_sends_nothing url).bind fun _ => trivial) rfl
  | send request =>
    have hsend := (tries_send hn request).imp (hone rfl) fun _ _ h => h
    refine hsend.bind fun ts r hr => ?_
    intro body _
    obtain ⟨x, hx, rfl⟩ := hr
    exact ⟨x, hx, rfl⟩
  | sendBatch requests =>
    have hsend := (tries_send hn (.arr requests)).imp (hone rfl) fun _ _ h => h
    have hbatch : (Pool.sendBatch requests).Tries n (Call.MayHaveTried n (.sendBatch requests))
        (fun ts r => ∃ x, ts.getLast? = some x ∧ r = x.outcome.bind Rpc.batchAnswers) [] := by
      refine hsend.bind fun ts r hr => ?_
      obtain ⟨x, hx, rfl⟩ := hr
      cases hv : x.outcome with
      | ok v => exact ⟨x, hx, by rw [hv]; rfl⟩
      | error e => exact ⟨x, hx, by rw [hv]; rfl⟩
    refine hbatch.bind fun ts r hr => ?_
    intro body _
    obtain ⟨x, hx, rfl⟩ := hr
    refine ⟨x, hx, ?_⟩
    cases x.outcome <;> rfl

end Call

/-! ## Tasks side by side -/

/-- The try that an event is, if it is one. -/
def Event.sent : Event → Option Try
  | .posted url body answer => some ⟨url, body, answer⟩
  | _ => none

/-- The tries of task `i`, in order. -/
def triesOf (i : Nat) (es : List (Nat × Event)) : List Try :=
  (es.filter fun x => x.1 = i).filterMap fun x => x.2.sent

theorem triesOf_snoc_self (i : Nat) (es : List (Nat × Event)) (e : Event) :
    triesOf i (es ++ [(i, e)]) = triesOf i es ++ e.sent.toList := by
  cases h : e.sent <;> simp [triesOf, h]

theorem triesOf_snoc_other {i j : Nat} (h : i ≠ j) (es : List (Nat × Event)) (e : Event) :
    triesOf j (es ++ [(i, e)]) = triesOf j es := by
  simp [triesOf, h]

namespace Scene

variable {s t : Scene α} {n : Nat} {P : Nat → List Try → Prop} {Q : Nat → List Try → α → Prop}
  {es : List (Nat × Event)}

/-- After the events so far each task has made tries of its kind and goes on
like that. -/
structure Tries (n : Nat) (P : Nat → List Try → Prop) (Q : Nat → List Try → α → Prop)
    (es : List (Nat × Event)) (s : Scene α) : Prop where
  made : ∀ i, P i (triesOf i es)
  rest : ∀ (i : Nat) (r : Routine α) (holds : Bool), s.tasks[i]? = some ⟨some r, holds⟩ →
    r.Tries n (P i) (Q i) (triesOf i es)

/-- Task `i` meets an event and goes on with the routine `r`. -/
theorem Tries.put (h : s.Tries n P Q es) {i : Nat} {e : Event} {q : Pool} {locked : Bool}
    {r : Routine α} {holds : Bool} (hmade : P i (triesOf i es ++ e.sent.toList))
    (hr : r.Tries n (P i) (Q i) (triesOf i es ++ e.sent.toList)) :
    ({ s with pool := q, locked := locked }.put i ⟨some r, holds⟩).Tries n P Q
      (es ++ [(i, e)]) := by
  refine ⟨fun j => ?_, fun j r' holds' hj => ?_⟩
  · by_cases hij : i = j
    · subst hij
      rw [triesOf_snoc_self]
      exact hmade
    · rw [triesOf_snoc_other hij]
      exact h.made j
  · rcases task_put hj with ⟨rfl, heq⟩ | ⟨hne, hj⟩
    · cases heq
      rw [triesOf_snoc_self]
      exact hr
    · rw [triesOf_snoc_other (Ne.symm hne)]
      exact h.rest j r' holds' hj

/-- Task `i` meets an event that is no try. -/
theorem Tries.pass (h : s.Tries n P Q es) {i : Nat} {e : Event} {q : Pool} {locked : Bool}
    {r : Routine α} {holds : Bool} (he : e.sent = none)
    (hr : r.Tries n (P i) (Q i) (triesOf i es)) :
    ({ s with pool := q, locked := locked }.put i ⟨some r, holds⟩).Tries n P Q
      (es ++ [(i, e)]) := by
  have hsame : triesOf i es ++ e.sent.toList = triesOf i es := by simp [he]
  refine h.put ?_ ?_
  · rw [hsame]
    exact h.made i
  · rw [hsame]
    exact hr

theorem Tries.move {i : Nat} {e : Event} (h : s.Tries n P Q es)
    (hn : s.pool.endpoints.length = n) (hm : Move s i e t) : t.Tries n P Q (es ++ [(i, e)]) := by
  cases hm with
  | look ht =>
    have hr := h.rest i _ _ ht
    exact h.pass rfl (hr s.pool hn)
  | @lock next _ ht =>
    have hr : next.Tries n (P i) (Q i) (triesOf i es) := (h.rest i _ _ ht :)
    exact h.pass rfl hr
  | @unlock next _ ht =>
    have hr : next.Tries n (P i) (Q i) (triesOf i es) := (h.rest i _ _ ht :)
    exact h.pass rfl hr
  | check answer ht =>
    have hr := h.rest i _ _ ht
    exact h.pass rfl (hr answer)
  | update answer ht =>
    have hr := h.rest i _ _ ht
    exact h.pass rfl (hr answer)
  | post answer ht =>
    have hr := h.rest i _ _ ht
    exact h.put (hr answer).1 (hr answer).2
  | drop ht =>
    have hsame : triesOf i (es ++ [(i, Event.dropped)]) = triesOf i es := by
      rw [triesOf_snoc_self]
      exact List.append_nil _
    refine ⟨fun j => ?_, fun j r holds hj => ?_⟩
    · by_cases hij : i = j
      · subst hij
        rw [hsame]
        exact h.made i
      · rw [triesOf_snoc_other hij]
        exact h.made j
    · rcases task_put hj with ⟨-, heq⟩ | ⟨hne, hj⟩
      · cases heq
      · rw [triesOf_snoc_other (Ne.symm hne)]
        exact h.rest j r holds hj

/-- While the number of endpoints stays, a whole run makes tries of the kind. -/
theorem Tries.interleaving {I : Pool → Prop} (h : s.Tries n P Q []) (inv : s.Orderly I)
    (hI : ∀ p, I p → p.endpoints.length = n) (hi : Interleaving s es t) : t.Tries n P Q es := by
  induction hi with
  | nil => exact h
  | snoc hi hm ih => exact ih.move (hI _ (inv.interleaving hi).pool) hm

end Scene

theorem tries_start {n : Nat} (hn : 0 < n) (p : Pool) (calls : List Call) :
    (Scene.start p (calls.map Call.routine)).Tries n
      (fun i ts => ∀ c, calls[i]? = some c → c.MayHaveTried n ts)
      (fun i ts g => ∀ c, calls[i]? = some c → c.EndsBy ts g) [] := by
  refine ⟨fun i c _ body _ => successive_nil n body, fun i r holds hi => ?_⟩
  simp only [Scene.start, List.map_map, List.getElem?_map, Option.map_eq_some_iff] at hi
  obtain ⟨c, hc, heq⟩ := hi
  cases heq
  refine (c.tries hn).imp ?_ ?_
  · intro ts hts c' hc'
    rw [hc] at hc'
    cases hc'
    exact hts
  · intro ts g hg c' hc'
    rw [hc] at hc'
    cases hc'
    exact hg

/-! ## The law -/

/-- A request over a sound pool, whatever the other tasks do and whatever comes
back: it makes as many tries as there are endpoints at most, all of the same
request, and another one only after an answer for which an endpoint is left. The
last try alone decides what it comes back with. Over every line a try is one
request to its URL or two, and one only when that is answered as throttled. -/
theorem a_request_is_decided_by_its_last_try {urls : List (String × UInt32)} {p : Pool}
    (hp : p.Sound urls) {calls : List Call} {es : List (Nat × Event)}
    {t : Scene (Except RpcError Gain)}
    (hi : (Scene.start p (calls.map Call.routine)).Interleaving es t) {i : Nat} {c : Call}
    (hc : calls[i]? = some c) {body : Json} (hbody : c.body? = some body) :
    (triesOf i es).length ≤ p.endpoints.length ∧
    (∀ x ∈ triesOf i es, x.body = body) ∧
    (∀ x ∈ (triesOf i es).dropLast, x.answer.Leaves) ∧
    (∀ g holds, t.tasks[i]? = some ⟨some (.done g), holds⟩ →
      ∃ x, (triesOf i es).getLast? = some x ∧ g = c.gain x.outcome) ∧
    (∀ x ∈ triesOf i es, ∀ (ω : Type) (l : Line ω) (w : ω),
      (l.requests x.url x.body w).length ≤ 2 ∧
      (∀ r ∈ l.requests x.url x.body w, Url.ofString x.url = .ok r.target ∧ r.body = x.body) ∧
      (∀ r text, (l.requests x.url x.body w).head? = some r → r.answer = .answered 429 text →
        (l.requests x.url x.body w).length = 1)) := by
  have hn : 0 < p.endpoints.length := Nat.lt_of_le_of_lt (Nat.zero_le _) hp.inRange
  have hsize : ∀ q : Pool, q.Sound urls → q.endpoints.length = p.endpoints.length :=
    fun q hq => length_of_configured (hq.configured.trans hp.configured.symm)
  have h := (tries_start hn p calls).interleaving (orderly_calls hp calls) hsize hi
  have hmade := h.made i c hc body hbody
  refine ⟨hmade.length_le, hmade.same, hmade.left, ?_, ?_⟩
  · intro g holds ht
    have hend : c.EndsBy (triesOf i es) g := h.rest i _ _ ht c hc
    exact hend body hbody
  · intro x _ ω l w
    exact requests_of_a_try l x.url x.body w

/-- One task sends a request while another leaves the first endpoint. -/
def overtaken : List Call := [.send .null, .rotate "http://a"]

/-- Both endpoints fail the request, after the other task has left the first. -/
theorem exists_overtaken_request :
    ∃ es t, (Scene.start twoUp (overtaken.map Call.routine)).Interleaving es t ∧
      triesOf 0 es = [⟨"http://a", .null, .answered 503 "busy"⟩,
        ⟨"http://b", .null, .answered 502 "down"⟩] ∧
      ∃ g holds, t.tasks[0]? = some ⟨some (.done g), holds⟩ := by
  have hsent := Scene.Interleaving.nil (s := Scene.start twoUp (overtaken.map Call.routine))
    |>.snoc (.look (i := 0) rfl)
    |>.snoc (.look (i := 0) rfl)
    |>.snoc (.post (i := 0) (.answered 503 "busy") rfl)
  have hleft := hsent
    |>.snoc (.lock (i := 1) rfl rfl)
    |>.snoc (.look (i := 1) rfl)
    |>.snoc (.look (i := 1) rfl)
    |>.snoc (.check (i := 1) (.ok 7) rfl)
    |>.snoc (.look (i := 1) rfl)
    |>.snoc (.look (i := 1) rfl)
    |>.snoc (.update (i := 1) (.ok ()) rfl)
    |>.snoc (.look (i := 1) rfl)
    |>.snoc (.look (i := 1) rfl)
    |>.snoc (.unlock (i := 1) rfl)
  -- its own report comes too late, and still counts as a rotation
  have hsecond := hleft
    |>.snoc (.lock (i := 0) rfl rfl)
    |>.snoc (.look (i := 0) rfl)
    |>.snoc (.unlock (i := 0) rfl)
    |>.snoc (.look (i := 0) rfl)
    |>.snoc (.post (i := 0) (.answered 502 "down") rfl)
  exact ⟨_, _, hsecond, rfl, _, _, rfl⟩

/-- The request above has two tries on a pool of two, and comes back with the
failure of the second. -/
theorem the_second_try_decides :
    ∃ es t, (Scene.start twoUp (overtaken.map Call.routine)).Interleaving es t ∧
      (triesOf 0 es).length = 2 ∧
      (∀ x ∈ triesOf 0 es, ∀ (l : Line Unit), (l.requests x.url x.body ()).length ≤ 2) ∧
      ∃ holds, t.tasks[0]? =
        some ⟨some (.done (.error (.http 502 "Bad Gateway: down"))), holds⟩ := by
  obtain ⟨es, t, hi, htries, g, holds, ht⟩ := exists_overtaken_request
  have hp : twoUp.Sound [("http://a", 90), ("http://b", 80)] := sound_of_ofUrls rfl
  obtain ⟨-, -, -, hend, hrequests⟩ :=
    a_request_is_decided_by_its_last_try hp hi (i := 0) (c := .send .null) rfl rfl
  refine ⟨es, t, hi, by rw [htries]; rfl, fun x hx l => (hrequests x hx Unit l ()).1, holds, ?_⟩
  obtain ⟨x, hx, rfl⟩ := hend g holds ht
  rw [htries] at hx
  cases hx
  exact ht

end Pool

end ChainAccess
