import ChainAccess.Proofs.Pool.Crowd
import ChainAccess.Proofs.Pool.Reports
import Mathlib.Data.List.Basic
import Mathlib.Tactic.Common
-- A routine that has the pool for itself, also one that a deadline drops:
-- what it asks of the wire, where its requests go, and that it leaves a sound
-- pool. A search never sends a request, and a request goes to the endpoint in
-- use, also the last one of a routine that was dropped while it waited.

namespace ChainAccess.Pool

variable {ω α β : Type}

/-- Where the first request among some questions went. -/
def firstPosted (cs : List Contact) : Option String :=
  cs.findSome? fun
    | .posted url _ => some url
    | _ => none

theorem firstPosted_append (cs ds : List Contact) :
    firstPosted (cs ++ ds) = (firstPosted cs).or (firstPosted ds) :=
  List.findSome?_append

namespace Routine

/-! ## What a run asks -/

/-- What a run asks of the wire before its end or the deadline. -/
def asked (w : Wire ω) (deadline : Option Nat) : Routine α → Site ω → List Contact
  | .done _, _ => []
  | .step change next, s => (next s.pool).asked w deadline { s with pool := change s.pool }
  | .acquire next, s => next.asked w deadline s
  | .release next, s => next.asked w deadline s
  | .check _ url next, s =>
    let t := w.check url s.wire
    let s := s.after (.checked url) t
    .checked url ::
      if s.isLate deadline then [] else (next (t.answer.map fun _ => t.elapsed)).asked w deadline s
  | .update url next, s =>
    let t := w.update url s.wire
    let s := s.after (.updated url) t
    .updated url :: if s.isLate deadline then [] else (next t.answer).asked w deadline s
  | .post url body next, s =>
    let t := w.post url body s.wire
    let s := s.after (.posted url body) t
    .posted url body :: if s.isLate deadline then [] else (next t.answer).asked w deadline s

theorem run_log (w : Wire ω) (deadline : Option Nat) (r : Routine α) (s : Site ω) :
    (r.run w deadline s).2.log = s.log ++ r.asked w deadline s := by
  induction r generalizing s with
  | done a => simp [run, asked]
  | step change next ih => exact ih _ _
  | acquire next ih => exact ih _
  | release next ih => exact ih _
  | check place url next ih =>
    simp only [run, asked]
    split
    · rfl
    · rw [ih]; simp [Site.after]
  | update url next ih =>
    simp only [run, asked]
    split
    · rfl
    · rw [ih]; simp [Site.after]
  | post url body next ih =>
    simp only [run, asked]
    split
    · rfl
    · rw [ih]; simp [Site.after]

/-- The routine sends no request. -/
def Silent (r : Routine α) : Prop := r.EachPost fun _ _ _ => False

theorem Silent.firstPosted_asked {r : Routine α} (h : r.Silent) (w : Wire ω)
    (deadline : Option Nat) (s : Site ω) : firstPosted (r.asked w deadline s) = none := by
  induction r generalizing s with
  | done a => rfl
  | step change next ih => exact ih _ (h s.pool) _
  | acquire next ih => exact ih h s
  | release next ih => exact ih h s
  | check place url next ih =>
    simp only [asked, firstPosted, List.findSome?_cons]
    split
    · rfl
    · exact ih _ (h _) _
  | update url next ih =>
    simp only [asked, firstPosted, List.findSome?_cons]
    split
    · rfl
    · exact ih _ (h _) _
  | post url body next => exact (h (.failed "")).1.elim

/-! ## Where requests go -/

/-- Each request of a routine that has the pool `p` for itself goes to the
endpoint in use. -/
def SendsInUse : Routine α → Pool → Prop
  | .done _, _ => True
  | .step change next, p => (next p).SendsInUse (change p)
  | .acquire next, p => next.SendsInUse p
  | .release next, p => next.SendsInUse p
  | .check _ _ next, p => ∀ r, (next r).SendsInUse p
  | .update _ next, p => ∀ r, (next r).SendsInUse p
  | .post url _ next, p => url = p.activeUrl ∧ ∀ a, (next a).SendsInUse p

theorem Silent.bind {r : Routine α} (h : r.Silent) {k : α → Routine β}
    (hk : ∀ a p, (k a).SendsInUse p) (p : Pool) : (r >>= k).SendsInUse p := by
  induction r generalizing p with
  | done a => exact hk a p
  | step change next ih => exact ih p (h p) _
  | acquire next ih => exact ih h p
  | release next ih => exact ih h p
  | check place url next ih => exact fun r => ih r (h r) p
  | update url next ih => exact fun r => ih r (h r) p
  | post url body next => exact (h (.failed "")).1.elim

theorem SendsInUse.bind {r : Routine α} {k : α → Routine β} {p : Pool} (h : r.SendsInUse p)
    (hk : ∀ a q, (k a).SendsInUse q) : (r >>= k).SendsInUse p := by
  induction r generalizing p with
  | done a => exact hk a p
  | step change next ih => exact ih p h
  | acquire next ih => exact ih h
  | release next ih => exact ih h
  | check place url next ih => exact fun r => ih r (h r)
  | update url next ih => exact fun r => ih r (h r)
  | post url body next ih => exact ⟨h.1, fun a => ih a (h.2 a)⟩

theorem sendOnce_in_use {body : Json} {k : String × Http.Verdict → Routine β} {p : Pool}
    (h : ∀ url (a : Http.Answer) q, (k (url, a.verdict url)).SendsInUse q) :
    (sendOnce body >>= k).SendsInUse p :=
  ⟨rfl, fun a => h p.activeUrl a p⟩

theorem sendWithin_in_use (body : Json) (rotations : Nat) (p : Pool) :
    (sendWithin body rotations).SendsInUse p := by
  induction rotations generalizing p with
  | zero =>
    refine sendOnce_in_use fun url a q => ?_
    cases a.verdict url with
    | final result => trivial
    | leave failure => trivial
  | succ rotations ih =>
    refine sendOnce_in_use fun url a q => ?_
    cases a.verdict url with
    | final result => trivial
    | leave failure =>
      refine Silent.bind (rotate_sends_nothing url) (fun r q => ?_) q
      cases r with
      | ok u => exact ih q
      | error e => trivial

theorem send_in_use (body : Json) (p : Pool) : (send body).SendsInUse p :=
  sendWithin_in_use body _ p

theorem sendBatch_in_use (requests : List Json) (p : Pool) : (sendBatch requests).SendsInUse p := by
  refine (send_in_use (.arr requests) p).bind fun r q => ?_
  cases r with
  | ok answer => trivial
  | error e => trivial

/-- Whatever ends a run that is dropped, its last request went to the endpoint
in use. -/
def EndsInUse (cs : List Contact) (p : Pool) : Prop :=
  ∃ c, cs.getLast? = some c ∧ ∀ url body, c = .posted url body → p.activeUrl = url

theorem endsInUse_cons {late : Bool} {c : Contact} {cs : List Contact} {s : Site ω}
    {rest : Option α × Site ω} (hdropped : (if late then (none, s) else rest).1 = none)
    (hnow : ∀ url body, c = .posted url body → s.pool.activeUrl = url)
    (hlater : rest.1 = none → EndsInUse cs rest.2.pool) :
    EndsInUse (c :: if late then [] else cs) (if late then (none, s) else rest).2.pool := by
  cases late with
  | true => exact ⟨c, rfl, hnow⟩
  | false =>
    obtain ⟨d, hd, huse⟩ := hlater hdropped
    exact ⟨d, by simp [List.getLast?_cons, hd], huse⟩

/-- A routine that a deadline drops while it waits for the answer to a request
leaves the endpoint in use that the request went to. -/
theorem endsInUse_of_dropped {w : Wire ω} {deadline : Option Nat} {r : Routine α} {s : Site ω}
    (hr : r.SendsInUse s.pool) (hdropped : (r.run w deadline s).1 = none) :
    EndsInUse (r.asked w deadline s) (r.run w deadline s).2.pool := by
  induction r generalizing s with
  | done a => cases hdropped
  | step change next ih => exact ih _ hr hdropped
  | acquire next ih => exact ih hr hdropped
  | release next ih => exact ih hr hdropped
  | check place url next ih =>
    exact endsInUse_cons hdropped (fun _ _ h => nomatch h) fun h => ih _ (hr _) h
  | update url next ih =>
    exact endsInUse_cons hdropped (fun _ _ h => nomatch h) fun h => ih _ (hr _) h
  | post url body next ih =>
    refine endsInUse_cons hdropped (fun _ _ h => ?_) fun h => ih _ (hr.2 _) h
    cases h
    exact hr.1.symm

theorem EndsInUse.append_left {cs : List Contact} {p : Pool} (h : EndsInUse cs p)
    (bs : List Contact) : EndsInUse (bs ++ cs) p := by
  obtain ⟨c, hc, huse⟩ := h
  exact ⟨c, by simp [List.getLast?_append, hc], huse⟩

/-- The first question of a routine that sends a request is that request, to
the endpoint in use. -/
theorem send_asks_first (w : Wire ω) (deadline : Option Nat) (body : Json) (s : Site ω) :
    firstPosted ((send body).asked w deadline s) = some s.pool.activeUrl := by
  show firstPosted ((sendWithin body (s.pool.endpoints.length - 1)).asked w deadline s) = _
  cases s.pool.endpoints.length - 1 with
  | zero => rfl
  | succ rotations => rfl

theorem sendBatch_asks_first (w : Wire ω) (deadline : Option Nat) (requests : List Json)
    (s : Site ω) :
    firstPosted ((sendBatch requests).asked w deadline s) = some s.pool.activeUrl := by
  show firstPosted
    ((sendWithin (.arr requests) (s.pool.endpoints.length - 1) >>= _).asked w deadline s) = _
  cases s.pool.endpoints.length - 1 with
  | zero => rfl
  | succ rotations => rfl

/-! ## What a run leaves -/

/-- A routine that keeps to the discipline leaves a sound pool, also when a
deadline drops it. -/
theorem Keeps.run_sound {r : Routine α} {urls : List (String × UInt32)}
    (hr : r.Keeps (Sound urls) (fun g _ => g = none) none) (w : Wire ω) (deadline : Option Nat)
    {s : Site ω} (hp : s.pool.Sound urls) : (r.run w deadline s).2.pool.Sound urls := by
  have inv : (Scene.start s.pool [r]).Orderly (Sound urls) :=
    Scene.orderly_start hp fun r' hr' => by
      cases List.mem_singleton.mp hr'
      exact hr
  obtain ⟨es, t, hrun, ht, -⟩ := run_is_an_interleaving w deadline r inv rfl rfl
  rw [← ht]
  exact (inv.interleaving hrun).pool

/-- A report of another endpoint than the one in use asks nothing and changes
nothing. -/
theorem run_rotate_stale (w : Wire ω) (deadline : Option Nat) {url : String} {s : Site ω}
    (h : s.pool.activeUrl ≠ url) : (rotate url).run w deadline s = (some (.ok ()), s) := by
  have hnone : rotationFrom? url s.pool = none := by simp [rotationFrom?, h]
  have hsame : afterFailureAt url s.pool = s.pool := by simp [afterFailureAt, h]
  show run w deadline (_ >>= _) { s with pool := afterFailureAt url s.pool } = _
  simp only [Bind.bind, andThen, hnone, hsame]
  rfl

/-- Nothing is asked to connect while the endpoint in use is verified. -/
theorem run_ensureConnected_verified (w : Wire ω) (deadline : Option Nat) {s : Site ω}
    (h : s.pool.verified = true) : ensureConnected.run w deadline s = (some (.ok ()), s) := by
  show run w deadline (if s.pool.verified then _ else _) s = _
  simp only [h, if_true]
  rfl

end Routine

end ChainAccess.Pool
