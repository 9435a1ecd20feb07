import ChainAccess.Proofs.Handle.Attempts
import ChainAccess.Proofs.Pool.Departure
import ChainAccess.Proofs.Pool.Failover
import ChainAccess.Proofs.Pool.Transport
import Mathlib.Tactic.Common
-- A run of attempts that has a pool for itself, after an attempt that ran out
-- of time while it waited for an endpoint. The attempt reports the endpoint it
-- began on. When that is the one it waited for, the pool leaves it; when it
-- went to another one on its way, the report comes too late to change anything.

namespace ChainAccess.Handle

open Workflow Pool

variable {ω α : Type} {wire : Wire ω} {h : Handle (Site ω)} {op : Workflow (Site ω) RpcError α}
  {w₀ w v : World (Site ω)} {n : Nat} {began url : String}

/-! ## The parts of an attempt -/

/-- Making sure of an endpoint sends no request, and nothing happens at all
while the endpoint in use is verified. -/
theorem bestUrl_course (hh : h.transport = Pool.transport wire) (w : World (Site ω)) :
    ∃ cs, Course w.node cs (h.bestUrl.run w).2.node ∧ firstPosted cs = none ∧
      (w.node.pool.verified = true → (h.bestUrl.run w).2.node = w.node) := by
  rw [bestUrl_node, hh]
  refine ⟨_, course_of_reply ensureConnected_disciplined wire none w.node,
    Routine.Silent.firstPosted_asked Routine.ensureConnected_sends_nothing wire _ _, fun hv => ?_⟩
  simp only [Pool.transport, replyOf, Option.map_none, Option.elim_none,
    Routine.run_ensureConnected_verified wire none hv]

theorem expire_course (hh : h.transport = Pool.transport wire) (url : String) (d : Option Nat)
    (w : World (Site ω)) :
    ∃ cs, Course w.node cs ((h.expire url : Workflow (Site ω) RpcError α) d w).2.node ∧
      firstPosted cs = none := by
  rw [expire_node, hh]
  exact ⟨_, course_of_reply (rotate_disciplined url) wire _ w.node,
    Routine.Silent.firstPosted_asked (Routine.rotate_sends_nothing url) wire _ _⟩

/-- The first request of an attempt that begins while the endpoint in use is
verified goes to that endpoint. -/
theorem attempt_course (hh : h.transport = Pool.transport wire) (hop : AsksInUse op)
    (w : World (Site ω)) :
    ∃ cs, Course w.node cs ((h.attempt op).run w).2.node ∧
      (w.node.pool.verified = true → OpensAt w.node.pool.activeUrl cs) := by
  obtain ⟨bs, hbest, hbs, hstay⟩ := bestUrl_course hh w
  rw [attempt_run]
  rcases hb : h.bestUrl.run w with ⟨url | e | _, u⟩
  case failed | expired =>
    rw [hb] at hbest
    exact ⟨bs, hbest, fun _ => opensAt_of_none hbs⟩
  case done =>
    rw [hb] at hbest hstay
    obtain ⟨cs, hcourse, hopens, -⟩ := hop (some (u.clock + h.timeout)) u
    have hfirst : w.node.pool.verified = true → OpensAt w.node.pool.activeUrl (bs ++ cs) := by
      intro hv
      rw [show u.node = w.node from hstay hv] at hopens
      exact (opensAt_of_none hbs).append hopens
    dsimp only
    rw [within_alone]
    rcases hrun : op (some (u.clock + h.timeout)) u with ⟨a | e | _, v⟩
    case expired =>
      -- the report that follows sends no request
      obtain ⟨ds, hexpire, hds⟩ := expire_course (α := α) hh url none v
      rw [hrun] at hcourse
      exact ⟨_, (hbest.trans hcourse).trans hexpire,
        fun hv => (hfirst hv).append (opensAt_of_none hds)⟩
    all_goals
      rw [hrun] at hcourse
      exact ⟨_, hbest.trans hcourse, hfirst⟩

/-! ## Attempts that run out of time -/

/-- The attempt after `n` failed ones, which began on the endpoint at `began`,
runs out of time in `v` while it waits for the answer of the one at `url`. -/
def Stalls (h : Handle (Site ω)) (op : Workflow (Site ω) RpcError α) (w₀ : World (Site ω))
    (n : Nat) (began url : String) (v : World (Site ω)) : Prop :=
  ∃ w u body, h.Begins op w₀ n w ∧ h.Tries op w began u .expired v ∧
    v.node.log.getLast? = some (.posted url body)

/-- The first request of the attempt after `n` failed ones goes to `url`. -/
def AsksFirst (h : Handle (Site ω)) (op : Workflow (Site ω) RpcError α) (w₀ : World (Site ω))
    (n : Nat) (url : String) : Prop :=
  ∃ w cs, h.Begins op w₀ n w ∧ ((h.attempt op).run w).2.node.log = w.node.log ++ cs ∧
    firstPosted cs = some url

theorem Begins.sound {urls : List (String × UInt32)} (hb : h.Begins op w₀ n w)
    (hh : h.transport = Pool.transport wire) (hop : AsksInUse op)
    (h₀ : w₀.node.pool.Sound urls) : w.node.pool.Sound urls := by
  refine Backoff.Begins.invariant (I := fun w => w.node.pool.Sound urls) hb h₀ ?_
  intro w e v ms hw hrun
  obtain ⟨cs, hcourse, -⟩ := attempt_course hh hop w
  rw [hrun] at hcourse
  exact hcourse.sound urls hw

theorem AsksFirst.eq_of_verified (hasks : h.AsksFirst op w₀ n url)
    (hh : h.transport = Pool.transport wire) (hop : AsksInUse op) (hb : h.Begins op w₀ n w)
    (hv : w.node.pool.verified = true) : url = w.node.pool.activeUrl := by
  obtain ⟨w', cs, hb', hlog, hfirst⟩ := hasks
  cases Backoff.Begins.unique hb hb'
  obtain ⟨ds, hcourse, hopens⟩ := attempt_course hh hop w
  have hcs : cs = ds := List.append_cancel_left (hlog.symm.trans hcourse.log)
  exact hopens hv url (hcs ▸ hfirst)

/-- The endpoint in use is the one that a stalled attempt waits for, and the
next attempt begins where the report of the endpoint it began on leads. -/
theorem Stalls.inv (hstall : h.Stalls op w₀ n began url v)
    (hh : h.transport = Pool.transport wire) (hop : AsksInUse op)
    {urls : List (String × UInt32)} (h₀ : w₀.node.pool.Sound urls) :
    v.node.pool.Sound urls ∧ v.node.pool.activeUrl = url ∧
      ∀ w, h.Begins op w₀ (n + 1) w →
        w.node = (h.transport.report began none v.node).node := by
  obtain ⟨w, u, body, hb, htries, hlast⟩ := hstall
  have hw := Begins.sound hb hh hop h₀
  obtain ⟨bs, hbest, -, -⟩ := bestUrl_course hh w
  rw [htries.1] at hbest
  obtain ⟨cs, hcourse, -, hend⟩ := hop (some (u.clock + h.timeout)) u
  rw [htries.2] at hcourse hend
  -- what the operation asked last is what the log ends with
  obtain ⟨c, hc, huse⟩ := hend rfl
  refine ⟨hcourse.sound urls (hbest.sound urls hw), ?_, fun w' hb' => ?_⟩
  · rw [hcourse.log, List.getLast?_append, hc] at hlast
    exact huse url body (Option.some.inj hlast)
  · cases hb' with
    | next hb' hrun _ _ =>
      cases Backoff.Begins.unique hb hb'
      rw [htries.expire] at hrun
      have hnode := expire_node (α := α) h began none v
      rw [show (h.expire began : Workflow (Site ω) RpcError α) none v = _ from hrun] at hnode
      exact hnode

/-! ## After a stall -/

/-- The way over another endpoint than the one in use is open while the pool
leaves the endpoint at `url`. -/
def HasSpare (wire : Wire ω) (url : String) (s : Site ω) : Prop :=
  ∃ x, x < s.pool.endpoints.length ∧ x ≠ s.pool.active ∧ Open x ((rotate url).story wire s)

/-- A report of the endpoint in use has the pool leave it for another one. -/
theorem HasSpare.rotates {s : Site ω} (hspare : HasSpare wire s.pool.activeUrl s)
    (hin : s.pool.InRange) (hdistinct : (s.pool.endpoints.map (·.url)).Nodup) :
    ((rotate s.pool.activeUrl).run wire none s).2.pool.verified = true ∧
      ((rotate s.pool.activeUrl).run wire none s).2.pool.activeUrl ≠ s.pool.activeUrl := by
  obtain ⟨x, hx, hne, hopen⟩ := hspare
  obtain ⟨a, -, htells⟩ := Routine.tells_story wire (rotate s.pool.activeUrl) s
  revert htells hopen
  generalize (rotate s.pool.activeUrl).story wire s = es
  generalize ((rotate s.pool.activeUrl).run wire none s).2.pool = q
  intro hopen htells
  have hmem : x ∈ s.pool.demote.alternatives :=
    (mem_alternatives _ x).mpr ⟨by simpa using hx, by simpa using hne⟩
  rcases tells_rotate.mp htells with ⟨-, hsearched⟩ | ⟨hno, -⟩
  swap
  · exact absurd rfl hno
  -- the search ends with the spare endpoint, or with one before it
  cases hsearched with
  | none hr => exact absurd hmem (hopen.not_mem hr fun _ he => he)
  | @unusable missed i rest es ms failure hc hr =>
    have hlast : Encounter.updated (s.pool.demote.urlAt i) (.error failure) ∈
        [Encounter.checked i (.ok ms), .updated (s.pool.demote.urlAt i) (.error failure)] := by simp
    cases hopen.updates _ _ (List.mem_append_right _ hlast)
  | @taken missed i rest es ms hc hr =>
    refine ⟨rfl, fun hsame => ?_⟩
    have hi : i ∈ s.pool.demote.alternatives := by simp [hc]
    obtain ⟨hlt, hother⟩ := (mem_alternatives _ i).mp hi
    have hconf : ((s.pool.demote.refused missed).markReached i ms).configured =
        s.pool.configured := by simp
    have hurl : s.pool.urlAt i = s.pool.activeUrl :=
      (urlAt_eq_of_configured hconf i).symm.trans hsame
    exact hother (eq_of_urlAt_eq hdistinct (by simpa using hlt) hin hurl)

/-- An attempt that stalls on the endpoint that it began on has the next one go
to another endpoint, if there is one that can be taken into use. An attempt
that went to another endpoint before it stalled there changes nothing by its
report, and while that endpoint counts as verified, the next attempt sends its
first request to it again. -/
theorem a_stall_is_left_by_an_attempt_that_began_there
    (hh : h.transport = Pool.transport wire) (hop : Transport.Sends h.transport op)
    (h₀ : w₀.node.pool.Sound w₀.node.pool.configured)
    (hdistinct : (w₀.node.pool.endpoints.map (·.url)).Nodup)
    (hstall : h.Stalls op w₀ n began url v) :
    (began = url → HasSpare wire url v.node →
      ∀ next, h.AsksFirst op w₀ (n + 1) next → next ≠ url) ∧
    (began ≠ url → (∀ w, h.Begins op w₀ (n + 1) w → w.node = v.node) ∧
      (v.node.pool.verified = true → ∀ next, h.AsksFirst op w₀ (n + 1) next → next = url)) := by
  rw [hh] at hop
  have huse := asksInUse_of_sends hop
  obtain ⟨hsound, hactive, hnext⟩ := hstall.inv hh huse h₀
  have hreport : ∀ w, h.Begins op w₀ (n + 1) w →
      w.node = ((rotate began).run wire none v.node).2 := by
    intro w hb
    rw [hnext w hb, hh]
    rfl
  constructor
  · intro hsame hspare next hasks
    have ⟨w, _, hb, _, _⟩ := hasks
    rw [← hactive] at hspare
    rw [← urls_eq_of_configured hsound.configured] at hdistinct
    obtain ⟨hv, hleft⟩ := hspare.rotates hsound.inRange hdistinct
    rw [hactive, ← hsame, ← hreport w hb] at hv hleft
    rw [hasks.eq_of_verified hh huse hb hv]
    exact hsame ▸ hleft
  · intro hother
    -- another endpoint is in use than the one reported
    have hstale : ∀ w, h.Begins op w₀ (n + 1) w → w.node = v.node := by
      intro w hb
      rw [hreport w hb, Routine.run_rotate_stale wire none (hactive ▸ hother.symm)]
    refine ⟨hstale, fun hv next hasks => ?_⟩
    have ⟨w, _, hb, _, _⟩ := hasks
    rw [hasks.eq_of_verified hh huse hb (by rwa [hstale w hb]), hstale w hb, hactive]

/-! ## A stall where the attempt began, and one after a rotation -/

/-- Every check passes and the client can be pointed to every endpoint; one
endpoint takes a minute for its answers and the others give `answer` at once. -/
def slowAt (slow : String) (answer : Http.Answer) : Wire Unit where
  check _ _ := ⟨.ok (), 5, ()⟩
  update _ _ := ⟨.ok (), 0, ()⟩
  post url _ _ := if url = slow then ⟨.answered 200 "", 60000, ()⟩ else ⟨answer, 20, ()⟩

/-- Two attempts of ten seconds each. -/
def twice (wire : Wire Unit) : Handle (Site Unit) := ⟨Pool.transport wire, 10000, ⟨2, 1, 1⟩⟩

/-- The number of the most recent block. -/
def query (wire : Wire Unit) : Workflow (Site Unit) RpcError UInt64 :=
  (Pool.transport wire).blockNumber

/-- Two endpoints before anything is asked. -/
def fresh : World (Site Unit) := .start (site twoUp ())

/-- The first endpoint never answers in time. -/
def firstSlow : Wire Unit := slowAt "http://a" (.answered 400 "")

/-- The second endpoint never answers in time, and the first is unavailable. -/
def secondSlow : Wire Unit := slowAt "http://b" (.answered 503 "")

theorem leaving_first_is_open :
    Open 1 [.checked 1 (.ok 5), .updated "http://b" (.ok ())] := by
  refine ⟨fun r hr => ?_, fun i a ha => ?_, fun url r hr => ?_⟩
  · have hpass : r = .ok 5 := by simpa using hr
    exact ⟨5, hpass⟩
  · simp at ha
  · have hupdate : url = "http://b" ∧ r = .ok () := by simpa using hr
    exact hupdate.2

/-- The first attempt runs out of time on the endpoint where it began, and the
second one goes to the other. -/
theorem a_stalled_first_endpoint_is_left :
    ∃ v, (twice firstSlow).Stalls (query firstSlow) fresh 0 "http://a" "http://a" v ∧
      HasSpare firstSlow "http://a" v.node ∧
      (twice firstSlow).AsksFirst (query firstSlow) fresh 1 "http://b" ∧
      "http://b" ≠ "http://a" := by
  have hstall : (twice firstSlow).Stalls (query firstSlow) fresh 0 "http://a" "http://a"
      (query firstSlow (some 10005) ((twice firstSlow).bestUrl.run fresh).2).2 :=
    ⟨_, _, _, .first, ⟨rfl, rfl⟩, rfl⟩
  have hspare : HasSpare firstSlow "http://a"
      (query firstSlow (some 10005) ((twice firstSlow).bestUrl.run fresh).2).2.node :=
    ⟨1, by decide, by decide, leaving_first_is_open⟩
  have hasks : (twice firstSlow).AsksFirst (query firstSlow) fresh 1 "http://b" :=
    ⟨_, _, .next .first rfl rfl (by decide), rfl, rfl⟩
  have hsound : twoUp.Sound twoUp.configured := sound_of_ofUrls rfl
  have hleft := a_stall_is_left_by_an_attempt_that_began_there rfl
    (Transport.sends_ask _ _ _ _) hsound (by decide) hstall
  exact ⟨_, hstall, hspare, hasks, hleft.1 rfl hspare _ hasks⟩

/-- The first attempt leaves the first endpoint for the second and runs out of
time there. It reports the first, and the second attempt sends its request to
the second again, while the first would pass every check. -/
theorem a_stall_after_a_rotation_is_met_again :
    ∃ v, (fresh.node.pool.endpoints.map (·.url)).Nodup ∧
      (twice secondSlow).Stalls (query secondSlow) fresh 0 "http://a" "http://b" v ∧
      (∀ s, (secondSlow.check "http://a" s).answer = .ok ()) ∧
      (∀ s, (secondSlow.update "http://a" s).answer = .ok ()) ∧
      (twice secondSlow).AsksFirst (query secondSlow) fresh 1 "http://b" := by
  have hstall : (twice secondSlow).Stalls (query secondSlow) fresh 0 "http://a" "http://b"
      (query secondSlow (some 10005) ((twice secondSlow).bestUrl.run fresh).2).2 :=
    ⟨_, _, _, .first, ⟨rfl, rfl⟩, rfl⟩
  have hasks : (twice secondSlow).AsksFirst (query secondSlow) fresh 1 "http://b" :=
    ⟨_, _, .next .first rfl rfl (by decide), rfl, rfl⟩
  exact ⟨_, by decide, hstall, fun _ => rfl, fun _ => rfl, hasks⟩

end ChainAccess.Handle
