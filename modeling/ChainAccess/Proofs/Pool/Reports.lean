import ChainAccess.Proofs.Pool.Requests
import ChainAccess.Proofs.Pool.Soundness
import Mathlib.Data.List.Basic
import Mathlib.Tactic.Common
-- Reports of failures. A task whose request failed reports the URL it went to
-- and takes the lock for it. From the lock to the unlock nobody else changes
-- the pool, so what a report does depends on the pool at the lock alone. It is
-- ignored when another endpoint is in use then, whatever happened since the
-- request went out; otherwise it counts as a failure of the endpoint in use.

namespace ChainAccess.Pool

open Routine

variable {α β : Type}

namespace Routine

theorem andThen_assoc {γ : Type} (r : Routine α) (k : α → Routine β) (l : β → Routine γ) :
    (r.andThen k).andThen l = r.andThen fun a => (k a).andThen l := by
  induction r with
  | done a => rfl
  | _ => simp only [andThen, *]

/-! ## What follows a request -/

/-- After each request, whatever the answer, `P` holds of the URL it went to,
the answer, and the routine that is left. -/
def EachPost (P : String → Http.Answer → Routine α → Prop) : Routine α → Prop
  | .done _ => True
  | .step _ next => ∀ p, (next p).EachPost P
  | .acquire next => next.EachPost P
  | .release next => next.EachPost P
  | .check _ _ next => ∀ r, (next r).EachPost P
  | .update _ next => ∀ r, (next r).EachPost P
  | .post url _ next => ∀ a, P url a (next a) ∧ (next a).EachPost P

variable {P : String → Http.Answer → Routine β → Prop}

theorem EachPost.bind {r : Routine α} {k : α → Routine β}
    (h : r.EachPost fun url a rest => P url a (rest >>= k)) (hk : ∀ a, (k a).EachPost P) :
    (r >>= k).EachPost P := by
  induction r with
  | done a => exact hk a
  | step change next ih => exact fun p => ih p (h p)
  | acquire next ih => exact ih h
  | release next ih => exact ih h
  | check place url next ih => exact fun r => ih r (h r)
  | update url next ih => exact fun r => ih r (h r)
  | post url body next ih => exact fun a => ⟨(h a).1, ih a (h a).2⟩

theorem EachPost.imp {P P' : String → Http.Answer → Routine α → Prop} {r : Routine α}
    (h : r.EachPost P) (hp : ∀ url a rest, P url a rest → P' url a rest) : r.EachPost P' := by
  induction r with
  | done a => trivial
  | step change next ih => exact fun p => ih p (h p)
  | acquire next ih => exact ih h
  | release next ih => exact ih h
  | check place url next ih => exact fun r => ih r (h r)
  | update url next ih => exact fun r => ih r (h r)
  | post url body next ih => exact fun a => ⟨hp _ _ _ (h a).1, ih a (h a).2⟩

theorem probe_sends_nothing {P : String → Http.Answer → Routine (Option Nat) → Prop}
    (candidates : List Nat) : (probe candidates).EachPost P := by
  induction candidates with
  | nil => trivial
  | cons i rest ih =>
    intro p r
    cases r with
    | ok ms => exact fun _ => trivial
    | error e => exact fun _ => ih

theorem search_sends_nothing {P : String → Http.Answer → Routine (Except RpcError Unit) → Prop}
    (candidates : List Nat) : (search candidates).EachPost P := by
  refine (probe_sends_nothing candidates).bind fun found => ?_
  cases found with
  | none => trivial
  | some i =>
    intro p r
    cases r with
    | ok u => exact fun _ => trivial
    | error e => trivial

theorem rotate_sends_nothing {P : String → Http.Answer → Routine (Except RpcError Unit) → Prop}
    (url : String) : (rotate url).EachPost P := by
  refine EachPost.bind (r := lock) trivial fun _ => EachPost.bind (fun _ => trivial) fun found => ?_
  cases found with
  | none => trivial
  | some candidates =>
    refine (search_sends_nothing candidates).bind fun r => ?_
    cases r with
    | ok u => exact fun _ => trivial
    | error e => trivial

theorem ensureConnected_sends_nothing
    {P : String → Http.Answer → Routine (Except RpcError Unit) → Prop} :
    ensureConnected.EachPost P := by
  refine EachPost.bind (fun _ => trivial) fun verified => ?_
  cases verified with
  | true => trivial
  | false =>
    refine EachPost.bind (r := lock) trivial fun _ =>
      EachPost.bind (fun _ => trivial) fun found => ?_
    cases found with
    | none => trivial
    | some candidates => exact (search_sends_nothing candidates).bind fun r => trivial

/-- A routine that is left after a request reports the URL it went to, if the
endpoint there failed and there is anything left. -/
def ReportsTo (url : String) (a : Http.Answer) (r : Routine α) : Prop :=
  a.Leaves → (∃ b, r = .done b) ∨ ∃ k, r = rotate url >>= k

/-- A routine sends a request and goes on as its answer is judged. -/
theorem sendOnce_each {P : String → Http.Answer → Routine β → Prop} {body : Json}
    {k : String × Http.Verdict → Routine β}
    (h : ∀ url a, P url a (k (url, a.verdict url)) ∧ (k (url, a.verdict url)).EachPost P) :
    (sendOnce body >>= k).EachPost P :=
  fun p a => h p.activeUrl a

theorem sendWithin_reports (body : Json) (rotations : Nat) :
    (sendWithin body rotations).EachPost ReportsTo := by
  induction rotations with
  | zero =>
    refine sendOnce_each fun url a => ?_
    cases a.verdict url with
    | final result => exact ⟨fun _ => Or.inl ⟨_, rfl⟩, trivial⟩
    | leave failure => exact ⟨fun _ => Or.inl ⟨_, rfl⟩, trivial⟩
  | succ rotations ih =>
    refine sendOnce_each fun url a => ?_
    cases a.verdict url with
    | final result => exact ⟨fun _ => Or.inl ⟨_, rfl⟩, trivial⟩
    | leave failure =>
      refine ⟨fun _ => Or.inr ⟨_, rfl⟩, (rotate_sends_nothing url).bind fun r => ?_⟩
      cases r with
      | ok u => exact ih
      | error e => trivial

theorem send_reports (body : Json) : (send body).EachPost ReportsTo :=
  EachPost.bind (r := view (·.endpoints.length - 1)) (fun _ => trivial) (sendWithin_reports body)

theorem EachPost.then_end {r : Routine α} {k : α → Routine β} (h : r.EachPost ReportsTo)
    (hk : ∀ a, ∃ b, k a = .done b) : (r >>= k).EachPost ReportsTo := by
  refine EachPost.bind (h.imp fun url a rest hrest hl => ?_) fun a => ?_
  · rcases hrest hl with ⟨b, rfl⟩ | ⟨l, rfl⟩
    · exact Or.inl (hk b)
    · exact Or.inr ⟨_, andThen_assoc _ _ _⟩
  · obtain ⟨b, hb⟩ := hk a
    rw [hb]
    trivial

theorem call_reports (c : Call) : c.routine.EachPost ReportsTo := by
  cases c with
  | ensure => exact ensureConnected_sends_nothing.bind fun _ => trivial
  | rotate url => exact (rotate_sends_nothing url).bind fun _ => trivial
  | send request => exact (send_reports request).then_end fun r => ⟨_, rfl⟩
  | sendBatch requests =>
    have hbatch : (sendBatch requests).EachPost ReportsTo :=
      (send_reports (.arr requests)).then_end fun r => by cases r <;> exact ⟨_, rfl⟩
    exact hbatch.then_end fun r => ⟨_, rfl⟩

/-! ## The part of a routine under the lock -/

/-- A routine that has the lock while the pool is `p` may meet `es` and give
the lock back with the pool `q`. -/
def Frees : Routine α → Pool → List Encounter → Pool → Prop
  | .done _, _, _, _ => False
  | .step change next, p, es, q => (next p).Frees (change p) es q
  | .acquire _, _, _, _ => False
  | .release _, p, es, q => es = [] ∧ q = p
  | .check place _ next, p, es, q => ∃ r fs, es = .checked place r :: fs ∧ (next r).Frees p fs q
  | .update url next, p, es, q => ∃ r fs, es = .updated url r :: fs ∧ (next r).Frees p fs q
  | .post _ _ next, p, es, q => ∃ a fs, es = .posted p.active a :: fs ∧ (next a).Frees p fs q

/-- A routine leaves the lock alone. -/
def Steady : Routine α → Prop
  | .done _ => True
  | .step _ next => ∀ p, (next p).Steady
  | .acquire _ => False
  | .release _ => False
  | .check _ _ next => ∀ r, (next r).Steady
  | .update _ next => ∀ r, (next r).Steady
  | .post _ _ next => ∀ a, (next a).Steady

theorem Steady.bind {r : Routine α} {k : α → Routine β} (h : r.Steady) (hk : ∀ a, (k a).Steady) :
    (r >>= k).Steady := by
  induction r with
  | done a => exact hk a
  | step change next ih => exact fun p => ih p (h p)
  | acquire next => exact h.elim
  | release next => exact h.elim
  | check place url next ih => exact fun r => ih r (h r)
  | update url next ih => exact fun r => ih r (h r)
  | post url body next ih => exact fun a => ih a (h a)

theorem steady_probe (candidates : List Nat) : (probe candidates).Steady := by
  induction candidates with
  | nil => trivial
  | cons i rest ih =>
    intro p r
    cases r with
    | ok ms => exact fun _ => trivial
    | error e => exact fun _ => ih

theorem steady_search (candidates : List Nat) : (search candidates).Steady := by
  refine (steady_probe candidates).bind fun found => ?_
  cases found with
  | none => trivial
  | some i =>
    intro p r
    cases r with
    | ok u => exact fun _ => trivial
    | error e => trivial

variable {p q : Pool} {es : List Encounter}

/-- A part that leaves the lock alone tells its story before the lock is given
back. -/
theorem Frees.of_bind {r : Routine α} {k : α → Routine β} (hr : r.Steady)
    (h : (r >>= k).Frees p es q) :
    ∃ fs m a gs, es = fs ++ gs ∧ r.Tells p fs m a ∧ (k a).Frees m gs q := by
  induction r generalizing p es with
  | done a => exact ⟨[], p, a, es, rfl, ⟨rfl, rfl, rfl⟩, h⟩
  | step change next ih => exact ih p (hr p) h
  | acquire next => exact hr.elim
  | release next => exact hr.elim
  | check place url next ih =>
    obtain ⟨r, es, rfl, h⟩ := h
    obtain ⟨fs, m, a, gs, rfl, ht, hf⟩ := ih r (hr r) h
    exact ⟨_ :: fs, m, a, gs, rfl, ⟨r, fs, rfl, ht⟩, hf⟩
  | update url next ih =>
    obtain ⟨r, es, rfl, h⟩ := h
    obtain ⟨fs, m, a, gs, rfl, ht, hf⟩ := ih r (hr r) h
    exact ⟨_ :: fs, m, a, gs, rfl, ⟨r, fs, rfl, ht⟩, hf⟩
  | post url body next ih =>
    obtain ⟨x, es, rfl, h⟩ := h
    obtain ⟨fs, m, a, gs, rfl, ht, hf⟩ := ih x (hr x) h
    exact ⟨_ :: fs, m, a, gs, rfl, ⟨x, fs, rfl, ht⟩, hf⟩

/-- What a report does under the lock: nothing when another endpoint is in use,
and otherwise it searches the others after the failure is noted. -/
theorem Frees.of_rotate {url : String} {k : Except RpcError Unit → Routine α} {next : Routine α}
    (hnext : rotate url >>= k = .acquire next) (h : next.Frees p es q) :
    (p.activeUrl = url ∧ ∃ r, Searched p.demote p.demote.alternatives es q r) ∨
      (p.activeUrl ≠ url ∧ es = [] ∧ q = p) := by
  cases hnext
  by_cases hurl : p.activeUrl = url
  · left
    simp only [Bind.bind, andThen, Frees, rotationFrom?, afterFailureAt, hurl, if_true] at h
    rw [andThen_assoc] at h
    obtain ⟨fs, m, r, gs, rfl, hs, hf⟩ := Frees.of_bind (steady_search _) h
    have hend : gs = [] ∧ q = m := by cases r <;> exact hf
    obtain ⟨rfl, rfl⟩ := hend
    rw [List.append_nil]
    exact ⟨hurl, r, tells_search.mp hs⟩
  · right
    simp only [Bind.bind, andThen, Frees, rotationFrom?, afterFailureAt, hurl, if_false] at h
    exact ⟨hurl, h⟩

end Routine

namespace Scene

/-! ## Runs under the lock -/

/-- A run during which task `i` keeps the lock and meets `es`. -/
inductive Section (i : Nat) (s : Scene α) : List Encounter → Scene α → Prop
  | nil : Section i s [] s
  | other {es t j e u} : Section i s es t → Move t j e u → j ≠ i → Section i s es u
  | look {es t u} : Section i s es t → Move t i .looked u → Section i s es u
  | check {es t place url r u} : Section i s es t → Move t i (.checked place url r) u →
      Section i s (es ++ [.checked place r]) u
  | update {es t url r u} : Section i s es t → Move t i (.updated url r) u →
      Section i s (es ++ [.updated url r]) u
  | post {es t url body a u} : Section i s es t → Move t i (.posted url body a) u →
      Section i s (es ++ [.posted t.pool.active a]) u

variable {I : Pool → Prop} {s t : Scene α} {i j : Nat} {e : Event}

/-- While task `i` has the lock the others change neither the pool nor it. -/
theorem Orderly.kept_by_other (inv : s.Orderly I) (hi : s.Holds i) (hm : Move s j e t)
    (hji : j ≠ i) : t.pool = s.pool ∧ t.tasks[i]? = s.tasks[i]? := by
  cases hm with
  | @look change next holds ht =>
    refine ⟨?_, task_put_ne (Ne.symm hji)⟩
    cases holds with
    | false => exact (inv.tasks j _ ht s.pool inv.pool).1
    | true => exact absurd (inv.exclusive j i ⟨_, ht, rfl⟩ hi) hji
  | _ => exact ⟨rfl, task_put_ne (Ne.symm hji)⟩

/-- What task `i` meets in a section is what its routine meets there. -/
theorem Section.frees {r : Routine α} {es : List Encounter} (inv : s.Orderly I)
    (ht : s.tasks[i]? = some ⟨some r, true⟩) (h : s.Section i es t) :
    t.Orderly I ∧ ∃ rest, t.tasks[i]? = some ⟨some rest, true⟩ ∧
      ∀ fs q, rest.Frees t.pool fs q → r.Frees s.pool (es ++ fs) q := by
  induction h with
  | nil => exact ⟨inv, r, ht, fun fs q h => h⟩
  | other _ hm hji ih =>
    obtain ⟨horderly, rest, hrest, hfrees⟩ := ih
    obtain ⟨hpool, htask⟩ := horderly.kept_by_other ⟨_, hrest, rfl⟩ hm hji
    refine ⟨horderly.move hm, rest, by rw [htask, hrest], fun fs q h => hfrees fs q ?_⟩
    rwa [hpool] at h
  | look _ hm ih =>
    obtain ⟨horderly, rest, hrest, hfrees⟩ := ih
    refine ⟨horderly.move hm, ?_⟩
    cases hm with
    | look ht' =>
      cases hrest.symm.trans ht'
      exact ⟨_, task_put_self ht', fun fs q h => hfrees fs q h⟩
  | @check es _ _ _ _ _ _ hm ih =>
    obtain ⟨horderly, rest, hrest, hfrees⟩ := ih
    refine ⟨horderly.move hm, ?_⟩
    cases hm with
    | check answer ht' =>
      cases hrest.symm.trans ht'
      refine ⟨_, task_put_self ht', fun fs q h => ?_⟩
      rw [List.append_assoc]
      exact hfrees _ q ⟨_, fs, rfl, h⟩
  | @update es _ _ _ _ _ hm ih =>
    obtain ⟨horderly, rest, hrest, hfrees⟩ := ih
    refine ⟨horderly.move hm, ?_⟩
    cases hm with
    | update answer ht' =>
      cases hrest.symm.trans ht'
      refine ⟨_, task_put_self ht', fun fs q h => ?_⟩
      rw [List.append_assoc]
      exact hfrees _ q ⟨_, fs, rfl, h⟩
  | @post es _ _ _ _ _ _ hm ih =>
    obtain ⟨horderly, rest, hrest, hfrees⟩ := ih
    refine ⟨horderly.move hm, ?_⟩
    cases hm with
    | post answer ht' =>
      cases hrest.symm.trans ht'
      refine ⟨_, task_put_self ht', fun fs q h => ?_⟩
      rw [List.append_assoc]
      exact hfrees _ q ⟨_, fs, rfl, h⟩

/-- Every run during which task `i` neither gives the lock back nor is dropped
is a section. -/
theorem Interleaving.exists_section {r : Routine α} {es : List (Nat × Event)}
    (inv : s.Orderly I) (ht : s.tasks[i]? = some ⟨some r, true⟩) (h : s.Interleaving es t)
    (hkept : ∀ e, (i, e) ∈ es → e ≠ .unlocked ∧ e ≠ .dropped) :
    ∃ met, s.Section i met t := by
  induction h with
  | nil => exact ⟨[], .nil⟩
  | @snoc es t j e u _ hm ih =>
    obtain ⟨met, hsec⟩ := ih fun e he => hkept e (List.mem_append_left _ he)
    by_cases hji : j = i
    · subst hji
      obtain ⟨hunlocked, hdropped⟩ := hkept e List.mem_concat_self
      cases e with
      | looked => exact ⟨met, hsec.look hm⟩
      | checked place url r => exact ⟨_, hsec.check hm⟩
      | updated url r => exact ⟨_, hsec.update hm⟩
      | posted url body a => exact ⟨_, hsec.post hm⟩
      | unlocked => exact absurd rfl hunlocked
      | dropped => exact absurd rfl hdropped
      | locked =>
        -- a task that has the lock does not wait for it
        obtain ⟨horderly, rest, hrest, -⟩ := hsec.frees inv ht
        cases hm with
        | lock ht' =>
          cases hrest.symm.trans ht'
          exact (horderly.tasks _ _ hrest).elim
    · exact ⟨met, hsec.other hm hji⟩

/-- Task `i` is about to report that the endpoint at `url` failed. -/
def Reports (s : Scene α) (i : Nat) (url : String) : Prop :=
  ∃ k, s.tasks[i]? = some ⟨some (rotate url >>= k), false⟩

/-- Task `i` came to its end. -/
def HasEnded (s : Scene α) (i : Nat) : Prop :=
  ∃ a, s.tasks[i]? = some ⟨some (.done a), false⟩

/-- What is before each task does `P` after each request. -/
def EachPost (P : String → Http.Answer → Routine α → Prop) (s : Scene α) : Prop :=
  ∀ (i : Nat) (r : Routine α) (holds : Bool), s.tasks[i]? = some ⟨some r, holds⟩ → r.EachPost P

variable {P : String → Http.Answer → Routine α → Prop}

theorem EachPost.put (h : s.EachPost P) {q : Pool} {l : Bool} {r : Routine α} {holds : Bool}
    (hr : r.EachPost P) :
    ({ s with pool := q, locked := l }.put i ⟨some r, holds⟩).EachPost P := by
  intro j r' holds' hj
  rcases task_put hj with ⟨-, heq⟩ | ⟨-, hj⟩
  · cases heq
    exact hr
  · exact h j r' holds' hj

theorem EachPost.move (h : s.EachPost P) (hm : Move s i e t) : t.EachPost P := by
  cases hm with
  | look ht =>
    have hr := h i _ _ ht
    exact h.put (hr s.pool)
  | @lock next _ ht =>
    have hr : next.EachPost P := (h i _ _ ht :)
    exact h.put hr
  | @unlock next _ ht =>
    have hr : next.EachPost P := (h i _ _ ht :)
    exact h.put hr
  | check answer ht =>
    have hr := h i _ _ ht
    exact h.put (hr answer)
  | update answer ht =>
    have hr := h i _ _ ht
    exact h.put (hr answer)
  | post answer ht =>
    have hr := h i _ _ ht
    exact h.put (hr answer).2
  | drop ht =>
    intro j r holds hj
    rcases task_put hj with ⟨-, heq⟩ | ⟨-, hj⟩
    · cases heq
    · exact h j r holds hj

theorem EachPost.interleaving {es : List (Nat × Event)} (h : s.EachPost P)
    (hrun : s.Interleaving es t) : t.EachPost P := by
  induction hrun with
  | nil => exact h
  | snoc _ hm ih => exact ih.move hm

/-- A task whose request failed reports it or has come to its end. -/
theorem EachPost.reports_of_failure (h : s.EachPost ReportsTo) (inv : s.Orderly I) {url : String}
    {body : Json} {a : Http.Answer} (hm : Move s i (.posted url body a) t) (ha : a.Leaves) :
    t.Reports i url ∨ t.HasEnded i := by
  have hkeeps := (inv.move hm).tasks i
  cases hm with
  | @post _ _ next holds _ ht =>
    have htask := task_put_self (t := ⟨some (next a), holds⟩) ht
    have hfree := hkeeps _ htask
    rcases (h i _ _ ht a).1 ha with ⟨b, hb⟩ | ⟨k, hk⟩
    · rw [hb] at hfree
      cases holds with
      | true => cases hfree
      | false => exact Or.inr ⟨b, by rw [htask, hb]⟩
    · rw [hk] at hfree
      cases holds with
      | true => exact hfree.elim
      | false => exact Or.inl ⟨k, by rw [htask, hk]⟩

theorem calls_report (p : Pool) (calls : List Call) :
    (start p (calls.map Call.routine)).EachPost ReportsTo := by
  intro i r holds hi
  simp only [start, List.getElem?_map, Option.map_map, Option.map_eq_some_iff] at hi
  obtain ⟨c, -, hc⟩ := hi
  cases hc
  exact call_reports c

/-- What a report does from the lock to the unlock. -/
theorem Orderly.judges_report {v w : Scene α} {url : String} {met : List Encounter}
    (inv : s.Orderly I) (hreports : s.Reports i url) (hlock : Move s i .locked t)
    (hsec : t.Section i met v) (hunlock : Move v i .unlocked w) :
    (s.pool.activeUrl = url ∧ ∃ r, Searched s.pool.demote s.pool.demote.alternatives met w.pool r) ∨
      (s.pool.activeUrl ≠ url ∧ met = [] ∧ w.pool = s.pool) := by
  obtain ⟨k, hk⟩ := hreports
  have inv' := inv.move hlock
  cases hlock with
  | @lock next holds ht hfree =>
    rw [hk] at ht
    obtain ⟨-, rest, hrest, hfrees⟩ := hsec.frees inv' (task_put_self hk)
    cases hunlock with
    | @unlock next' holds' ht' =>
      cases hrest.symm.trans ht'
      have hmet := hfrees [] v.pool ⟨rfl, rfl⟩
      rw [List.append_nil] at hmet
      have hnext : rotate url >>= k = .acquire next := by cases ht; rfl
      exact Frees.of_rotate hnext hmet

end Scene

/-! ## The laws -/

variable {p : Pool} {urls : List (String × UInt32)} {es : List (Nat × Event)}
  {s : Scene (Except RpcError Gain)}

/-- A search among some candidates checks one. -/
theorem Searched.ne_nil {q : Pool} {candidates : List Nat} {es : List Encounter}
    {r : Except RpcError Unit} (h : Searched p candidates es q r) (hc : candidates ≠ []) :
    es ≠ [] := by
  cases h with
  | none hr =>
    rintro rfl
    cases hr
    exact hc rfl
  | taken hc hr => simp
  | unusable hc hr => simp

theorem alternatives_ne_nil (h : 2 ≤ p.endpoints.length) : p.alternatives ≠ [] := by
  obtain ⟨i, hi, hne⟩ : ∃ i, i < p.endpoints.length ∧ i ≠ p.active := by
    by_cases h0 : p.active = 0
    · exact ⟨1, by omega, by omega⟩
    · exact ⟨0, by omega, by omega⟩
  exact List.ne_nil_of_mem ((mem_alternatives p i).mpr ⟨hi, hne⟩)

/-- A task whose request failed reports the URL the request went to, or comes
to its end. A report that has the lock until the unlock does nothing when
another endpoint was in use at the lock. Otherwise, whatever happened since the
request went out, it counts as a failure of the endpoint in use, and the others
are searched. So of more than one endpoint it checks one exactly when the URL it
tells is in use. A task that is not dropped has the lock from the lock to the unlock. -/
theorem a_report_is_judged_by_the_endpoint_in_use (hp : Pool.ofUrls urls = .ok p)
    (calls : List Call)
    (hrun : (Scene.start p (calls.map Call.routine)).Interleaving es s) (i : Nat) (url : String) :
    (∀ body a t, Scene.Move s i (.posted url body a) t → a.Leaves →
      t.Reports i url ∨ t.HasEnded i) ∧
    (∀ t met v w, s.Reports i url → Scene.Move s i .locked t → t.Section i met v →
      Scene.Move v i .unlocked w →
      ((s.pool.activeUrl = url ∧
          ∃ r, Searched s.pool.demote s.pool.demote.alternatives met w.pool r) ∨
        (s.pool.activeUrl ≠ url ∧ met = [] ∧ w.pool = s.pool)) ∧
      (2 ≤ s.pool.endpoints.length → (met = [] ↔ s.pool.activeUrl ≠ url))) ∧
    (∀ t fs v, Scene.Move s i .locked t → t.Interleaving fs v →
      (∀ e, (i, e) ∈ fs → e ≠ .unlocked ∧ e ≠ .dropped) → ∃ met, t.Section i met v) := by
  have inv := (orderly_calls (sound_of_ofUrls hp) calls).interleaving hrun
  have heach := (Scene.calls_report p calls).interleaving hrun
  refine ⟨fun body a t hm ha => heach.reports_of_failure inv hm ha, ?_, ?_⟩
  · intro t met v w hreports hlock hsec hunlock
    have hjudged := inv.judges_report hreports hlock hsec hunlock
    refine ⟨hjudged, fun hlen => ?_⟩
    rcases hjudged with ⟨hurl, r, hsearch⟩ | ⟨hurl, hmet, -⟩
    · have halt := alternatives_ne_nil (p := s.pool.demote) (by simpa using hlen)
      exact iff_of_false (hsearch.ne_nil halt) (by simp [hurl])
    · exact iff_of_true hmet hurl
  · intro t fs v hlock hmoves hkept
    have inv' := inv.move hlock
    cases hlock with
    | lock ht _ => exact hmoves.exists_section inv' (Scene.task_put_self ht) hkept

/-! ## Reports that come late -/

/-- One task sends a request, and others leave the first endpoint and then the
second. -/
def crossing : List Call := [.send .null, .rotate "http://a", .rotate "http://b"]

/-- Task `i` waits for the answer to a request to `url`. -/
def Scene.Awaits {α : Type} (s : Scene α) (i : Nat) (url : String) : Prop :=
  ∃ body next, s.tasks[i]? = some ⟨some (.post url body next), false⟩

/-- The pool after the first endpoint was left for the second. -/
def secondUp : Pool :=
  ⟨[⟨"http://a", 90, false, none⟩, ⟨"http://b", 80, true, some 7⟩], 1, true⟩

/-- The pool after the second endpoint was left for the first again. -/
def firstUp : Pool :=
  ⟨[⟨"http://a", 90, true, some 8⟩, ⟨"http://b", 80, false, some 7⟩], 0, true⟩

/-- The request goes to the first endpoint, and is not over when it fails. -/
theorem request_goes_out :
    ∃ es next, (Scene.start twoUp (crossing.map Call.routine)).Interleaving es
      ⟨twoUp, false, [⟨some (.post "http://a" .null next), false⟩,
        ⟨some (Call.rotate "http://a").routine, false⟩,
        ⟨some (Call.rotate "http://b").routine, false⟩]⟩ ∧
      ∀ b, next (.answered 503 "") ≠ .done b := by
  have hsent := Scene.Interleaving.nil (s := Scene.start twoUp (crossing.map Call.routine))
    |>.snoc (.look (i := 0) rfl)
    |>.snoc (.look (i := 0) rfl)
  exact ⟨_, _, hsent, fun b hb => nomatch hb⟩

variable (t₀ t₁ t₂ : Task (Except RpcError Gain))

theorem second_comes_into_use :
    ∃ es, Scene.Interleaving
      ⟨twoUp, false, [t₀, ⟨some (Call.rotate "http://a").routine, false⟩, t₂]⟩
      es ⟨secondUp, false, [t₀, ⟨some (.done (.ok .nothing)), false⟩, t₂]⟩ := by
  have hleft := Scene.Interleaving.nil
      (s := ⟨twoUp, false, [t₀, ⟨some (Call.rotate "http://a").routine, false⟩, t₂]⟩)
    |>.snoc (.lock (i := 1) rfl rfl)
    |>.snoc (.look (i := 1) rfl)
    |>.snoc (.look (i := 1) rfl)
    |>.snoc (.check (i := 1) (.ok 7) rfl)
    |>.snoc (.look (i := 1) rfl)
    |>.snoc (.look (i := 1) rfl)
    |>.snoc (.update (i := 1) (.ok ()) rfl)
    |>.snoc (.look (i := 1) rfl)
    |>.snoc (.look (i := 1) rfl)
    |>.snoc (.unlock (i := 1) rfl)
  exact ⟨_, hleft⟩

theorem first_comes_back :
    ∃ es, Scene.Interleaving
      ⟨secondUp, false, [t₀, t₁, ⟨some (Call.rotate "http://b").routine, false⟩]⟩
      es ⟨firstUp, false, [t₀, t₁, ⟨some (.done (.ok .nothing)), false⟩]⟩ := by
  have hleft := Scene.Interleaving.nil
      (s := ⟨secondUp, false, [t₀, t₁, ⟨some (Call.rotate "http://b").routine, false⟩]⟩)
    |>.snoc (.lock (i := 2) rfl rfl)
    |>.snoc (.look (i := 2) rfl)
    |>.snoc (.look (i := 2) rfl)
    |>.snoc (.check (i := 2) (.ok 8) rfl)
    |>.snoc (.look (i := 2) rfl)
    |>.snoc (.look (i := 2) rfl)
    |>.snoc (.update (i := 2) (.ok ()) rfl)
    |>.snoc (.look (i := 2) rfl)
    |>.snoc (.look (i := 2) rfl)
    |>.snoc (.unlock (i := 2) rfl)
  exact ⟨_, hleft⟩

theorem request_fails (p : Pool) (next : Http.Answer → Routine (Except RpcError Gain)) :
    Scene.Move ⟨p, false, [⟨some (.post "http://a" .null next), false⟩, t₁, t₂]⟩ 0
      (.posted "http://a" .null (.answered 503 ""))
      ⟨p, false, [⟨some (next (.answered 503 "")), false⟩, t₁, t₂]⟩ :=
  .post _ rfl

theorem unavailable_leaves (body : String) : Http.Answer.Leaves (.answered 503 body) := by
  simp [Http.Answer.Leaves, Http.leavingStatuses]

variable (k : Except RpcError Unit → Routine (Except RpcError Gain))

/-- A report of the first endpoint while the second is in use. -/
theorem report_is_let_go :
    ∃ t u v met,
      Scene.Move ⟨secondUp, false, [⟨some (rotate "http://a" >>= k), false⟩, t₁, t₂]⟩ 0 .locked t ∧
      t.Section 0 met u ∧ Scene.Move u 0 .unlocked v := by
  have hlock := Scene.Move.lock (i := 0)
    (s := ⟨secondUp, false, [⟨some (rotate "http://a" >>= k), false⟩, t₁, t₂]⟩) rfl rfl
  exact ⟨_, _, _, _, hlock, .look .nil (.look rfl), .unlock rfl⟩

/-- A report of the first endpoint while that is in use again. -/
theorem report_is_followed :
    ∃ t u,
      Scene.Move ⟨firstUp, false, [⟨some (rotate "http://a" >>= k), false⟩, t₁, t₂]⟩ 0 .locked t ∧
      t.Section 0 [.checked 1 (.ok 9)] u ∧ u.pool.verified = false := by
  have hlock := Scene.Move.lock (i := 0)
    (s := ⟨firstUp, false, [⟨some (rotate "http://a" >>= k), false⟩, t₁, t₂]⟩) rfl rfl
  exact ⟨_, _, hlock, .check (.look (.look .nil (.look rfl)) (.look rfl)) (.check (.ok 9) rfl), rfl⟩

/-- A report of the first endpoint is ignored while the second is in use. -/
theorem an_overtaken_report_is_ignored :
    ∃ es s t u v w met, Pool.ofUrls [("http://a", 90), ("http://b", 80)] = .ok twoUp ∧
      (Scene.start twoUp (crossing.map Call.routine)).Interleaving es s ∧
      Scene.Move s 0 (.posted "http://a" .null (.answered 503 "")) t ∧ t.Reports 0 "http://a" ∧
      Scene.Move t 0 .locked u ∧ u.Section 0 met v ∧ Scene.Move v 0 .unlocked w ∧
      met = [] ∧ w.pool = t.pool := by
  have hp : Pool.ofUrls [("http://a", 90), ("http://b", 80)] = .ok twoUp := rfl
  obtain ⟨es, next, hsent, hgoes⟩ := request_goes_out
  obtain ⟨fs, hleft⟩ := second_comes_into_use ⟨some (.post "http://a" .null next), false⟩
    ⟨some (Call.rotate "http://b").routine, false⟩
  have hrun := hsent.trans hleft
  have hfail := request_fails ⟨some (.done (.ok .nothing)), false⟩
    ⟨some (Call.rotate "http://b").routine, false⟩ secondUp next
  have hreports := (a_report_is_judged_by_the_endpoint_in_use hp crossing hrun 0
    "http://a").1 _ _ _ hfail (unavailable_leaves "")
  rcases hreports with ⟨k, hk⟩ | ⟨b, hb⟩
  swap
  · exact absurd (by simpa using hb) (hgoes b)
  have hnext : next (.answered 503 "") = rotate "http://a" >>= k := by simpa using hk
  rw [hnext] at hfail
  obtain ⟨u, v, w, met, hlock, hsec, hunlock⟩ := report_is_let_go _ _ k
  have hjudged := (a_report_is_judged_by_the_endpoint_in_use hp crossing (hrun.snoc hfail) 0
    "http://a").2.1 u met v w ⟨k, rfl⟩ hlock hsec hunlock
  rcases hjudged.1 with ⟨hurl, -⟩ | ⟨-, hmet, hpool⟩
  · have hother : secondUp.activeUrl ≠ "http://a" := by decide
    exact absurd hurl hother
  · exact ⟨_, _, _, u, v, w, met, hp, hrun, hfail, ⟨k, rfl⟩, hlock, hsec, hunlock, hmet, hpool⟩

/-- A report of the first endpoint is taken for a new failure after the pool
went to the second endpoint and came back. -/
theorem a_report_outlives_a_round_trip :
    ∃ es s fs t gs u v w x, (twoUp.endpoints.map (·.url)).Nodup ∧
      (Scene.start twoUp (crossing.map Call.routine)).Interleaving es s ∧
      s.Awaits 0 "http://a" ∧ s.Interleaving fs t ∧ t.pool.activeUrl = "http://b" ∧
      t.Interleaving gs u ∧ u.pool.activeUrl = "http://a" ∧ u.pool.verified = true ∧
      Scene.Move u 0 (.posted "http://a" .null (.answered 503 "")) v ∧ v.Reports 0 "http://a" ∧
      Scene.Move v 0 .locked w ∧ w.Section 0 [.checked 1 (.ok 9)] x ∧ x.pool.verified = false := by
  have hp : Pool.ofUrls [("http://a", 90), ("http://b", 80)] = .ok twoUp := rfl
  obtain ⟨es, next, hsent, hgoes⟩ := request_goes_out
  obtain ⟨fs, hleft⟩ := second_comes_into_use ⟨some (.post "http://a" .null next), false⟩
    ⟨some (Call.rotate "http://b").routine, false⟩
  obtain ⟨gs, hback⟩ := first_comes_back ⟨some (.post "http://a" .null next), false⟩
    ⟨some (.done (.ok .nothing)), false⟩
  have hrun := (hsent.trans hleft).trans hback
  have hfail := request_fails ⟨some (.done (.ok .nothing)), false⟩
    ⟨some (.done (.ok .nothing)), false⟩ firstUp next
  have inv := (orderly_calls (sound_of_ofUrls hp) crossing).interleaving hrun
  have heach := (Scene.calls_report twoUp crossing).interleaving hrun
  have hreports := heach.reports_of_failure inv hfail (unavailable_leaves "")
  rcases hreports with ⟨k, hk⟩ | ⟨b, hb⟩
  swap
  · exact absurd (by simpa using hb) (hgoes b)
  have hnext : next (.answered 503 "") = rotate "http://a" >>= k := by simpa using hk
  rw [hnext] at hfail
  obtain ⟨w, x, hlock, hsec, hdoubted⟩ := report_is_followed _ _ k
  exact ⟨_, _, _, _, _, _, _, w, x, by decide, hsent, ⟨_, _, rfl⟩, hleft, rfl, hback, rfl, rfl,
    hfail, ⟨k, rfl⟩, hlock, hsec, hdoubted⟩

end ChainAccess.Pool
