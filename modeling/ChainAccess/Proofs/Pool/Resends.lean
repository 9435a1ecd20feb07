import ChainAccess.Pool.Http
import Mathlib.Data.List.Basic
import Mathlib.Tactic.Common
-- How often one try is sent over a line. A line sends a request again as long
-- as its answer makes that worthwhile and a number of times at most; the settings
-- of a pool let it do so once, and never after the answer of a throttled endpoint.
-- Which requests went out is read off a record that the line keeps beside
-- what it does.

namespace ChainAccess.Pool

variable {ω : Type}

/-! ## Lines that keep a record -/

/-- A request on a line and its answer. -/
structure Sending where
  target : Url
  body : Json
  answer : Http.Answer

/-- The line that keeps a record of its requests. -/
def Line.recorded (l : Line ω) : Line (ω × List Sending) where
  post u body w :=
    let t := l.post u body w.1
    ⟨t.answer, t.elapsed, (t.wire, w.2 ++ [⟨u, body, t.answer⟩])⟩

/-- The requests on a line by which a try gets its answer. -/
def Line.requests (l : Line ω) (url : String) (body : Json) (w : ω) : List Sending :=
  (l.recorded.send .default url body (w, [])).wire.2

/-! ## Sending again -/

/-- The requests by which an answer came about: all the same one, no more after
one whose answer was not to be tried again, and the answer is that of the last. -/
structure Resent (again : Http.Answer → Bool) (u : Url) (body : Json) (retries : Nat)
    (answer : Http.Answer) (rs : List Sending) : Prop where
  length_le : rs.length ≤ retries + 1
  same : ∀ x ∈ rs, x.target = u ∧ x.body = body
  last : rs.getLast?.map (·.answer) = some answer
  again : ∀ x ∈ rs.dropLast, again x.answer = true

theorem resent_single (again : Http.Answer → Bool) (u : Url) (body : Json) (retries : Nat)
    (a : Http.Answer) : Resent again u body retries a [⟨u, body, a⟩] := by
  refine ⟨?_, ?_, rfl, fun _ h => (nomatch h)⟩
  · simp
  · intro x hx
    rw [List.mem_singleton.mp hx]
    exact ⟨rfl, rfl⟩

theorem Resent.cons {again : Http.Answer → Bool} {u : Url} {body : Json} {retries : Nat}
    {a b : Http.Answer} {rs : List Sending} (h : Resent again u body retries a rs)
    (hb : again b = true) : Resent again u body (retries + 1) a (⟨u, body, b⟩ :: rs) := by
  obtain ⟨r, rs', rfl⟩ : ∃ r rs', rs = r :: rs' := by
    cases rs with
    | nil => cases h.last
    | cons r rs' => exact ⟨r, rs', rfl⟩
  refine ⟨?_, ?_, ?_, ?_⟩
  · simpa using h.length_le
  · intro x hx
    rcases List.mem_cons.mp hx with rfl | hx
    · exact ⟨rfl, rfl⟩
    · exact h.same x hx
  · rw [List.getLast?_cons_cons]
    exact h.last
  · intro x hx
    rw [List.dropLast_cons_cons] at hx
    rcases List.mem_cons.mp hx with rfl | hx
    · exact hb
    · exact h.again x hx

/-- Recording changes nothing but the record. -/
theorem resend_recorded (l : Line ω) (again : Http.Answer → Bool) (u : Url) (body : Json)
    (retries : Nat) (w : ω) (sent : List Sending) :
    ∃ rs, l.recorded.resend again u body retries (w, sent) =
        ⟨(l.resend again u body retries w).answer, (l.resend again u body retries w).elapsed,
          ((l.resend again u body retries w).wire, sent ++ rs)⟩ ∧
      Resent again u body retries (l.resend again u body retries w).answer rs := by
  induction retries generalizing w sent with
  | zero => exact ⟨_, rfl, resent_single again u body 0 _⟩
  | succ retries ih =>
    have hone := resent_single again u body (retries + 1) (l.post u body w).answer
    by_cases ha : again (l.post u body w).answer = true
    · obtain ⟨rs, hrs, hresent⟩ := ih (l.post u body w).wire
        (sent ++ [⟨u, body, (l.post u body w).answer⟩])
      refine ⟨⟨u, body, (l.post u body w).answer⟩ :: rs, ?_, ?_⟩
      · simp only [Line.resend, Line.recorded, ha, if_true] at hrs ⊢
        rw [hrs]
        simp
      · simp only [Line.resend, ha, if_true]
        exact hresent.cons ha
    · refine ⟨[⟨u, body, (l.post u body w).answer⟩], ?_, ?_⟩
      · simp [Line.resend, Line.recorded, ha]
      · simp only [Line.resend, ha]
        exact hone

/-! ## One try -/

/-- A request that is answered as throttled is not sent again. -/
theorem throttled_is_final (text : String) :
    Resending.default.again (.answered 429 text) = false := rfl

theorem requests_of_a_try (l : Line ω) (url : String) (body : Json) (w : ω) :
    (l.requests url body w).length ≤ 2 ∧
    (∀ r ∈ l.requests url body w, Url.ofString url = .ok r.target ∧ r.body = body) ∧
    (∀ r text, (l.requests url body w).head? = some r → r.answer = .answered 429 text →
      (l.requests url body w).length = 1) := by
  unfold Line.requests
  cases hu : Url.ofString url with
  | error f =>
    -- no request goes out to what is no URL
    simp [Line.send, hu]
  | ok u =>
    obtain ⟨rs, hrs, hresent⟩ := resend_recorded l Resending.default.again u body 1 w []
    have hsend : l.recorded.send .default url body (w, []) =
        l.recorded.resend Resending.default.again u body 1 (w, []) := by
      simp only [Line.send, hu]
      rfl
    rw [hsend, hrs, List.nil_append]
    refine ⟨hresent.length_le, ?_, ?_⟩
    · intro r hr
      obtain ⟨rfl, hbody⟩ := hresent.same r hr
      exact ⟨rfl, hbody⟩
    · intro r text hhead ha
      cases rs with
      | nil => cases hhead
      | cons r' rest =>
        cases hhead
        cases rest with
        | nil => rfl
        | cons r'' rest =>
          have hagain := hresent.again r (by simp)
          rw [ha, throttled_is_final] at hagain
          cases hagain

end ChainAccess.Pool
