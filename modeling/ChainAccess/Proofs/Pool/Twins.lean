import ChainAccess.Proofs.Contract.Answers
import ChainAccess.Proofs.Network.Startup
import ChainAccess.Proofs.Pool.Crowd
import ChainAccess.Proofs.Pool.Departure
import ChainAccess.Proofs.Pool.Tries
import Mathlib.Data.List.Chain
import Mathlib.Data.List.Nodup
import Mathlib.Tactic.Common
-- Endpoints that share a URL. A rotation always takes another place of the pool
-- into use, but callers know endpoints by their URLs, and settings may give two
-- places the same one: no flaw is seen in it, and different texts may have one
-- normal form. A task that has the pool for itself is never led back to the URL
-- that it left, in any of its runs, exactly when no two endpoints share theirs.

namespace ChainAccess

namespace Pool

variable {p q : Pool} {es : List Encounter}

/-! ## Places -/

theorem Searched.configured_eq {candidates : List Nat} {r : Except RpcError Unit}
    (h : Searched p candidates es q r) : q.configured = p.configured := by
  cases h with
  | none hr => simp
  | @taken missed i _ _ ms hc hr =>
    have hreached : ((p.refused missed).markReached i ms).configured = p.configured := by simp
    exact hreached
  | unusable hc hr => simp

theorem Sent.tried_head {k : Nat} {r : Except RpcError Json} (h : Sent k p es q r) :
    (tried es).head? = some p.active := by
  cases h <;> rfl

/-- Places that differ, both among the first `n`. -/
def Apart (n : Nat) (i j : Nat) : Prop := i ≠ j ∧ i < n ∧ j < n

/-- A rotation that finds an endpoint takes it into use at another place. -/
theorem Searched.apart (hp : p.InRange)
    (h : Searched p.demote p.demote.alternatives es q (.ok ())) :
    Apart p.endpoints.length p.active q.active ∧ q.configured = p.configured := by
  obtain ⟨hlt, hne⟩ := (mem_alternatives _ _).mp h.active_mem
  exact ⟨⟨hne.symm, hp, by simpa using hlt⟩, by simpa using h.configured_eq⟩

/-- From one try to the next a request moves to another place. -/
theorem Sent.isChain_apart {k n : Nat} {r : Except RpcError Json} (h : Sent k p es q r)
    (hp : p.InRange) (hn : p.endpoints.length = n) : (tried es).IsChain (Apart n) := by
  induction h with
  | final ha => simp
  | spent ha => simp
  | stuck ha hsearch => simp [hsearch.tried_eq_nil]
  | on ha hsearch hsent ih =>
    obtain ⟨hapart, hsame⟩ := hsearch.apart hp
    have hlen := length_of_configured hsame
    have hm := hapart.2.2
    rw [← hlen] at hm
    rw [tried_posted, tried_append, hsearch.tried_eq_nil, List.nil_append, List.isChain_cons,
      hsent.tried_head]
    refine ⟨fun i hi => ?_, ih hm (hlen.trans hn)⟩
    cases hi
    rw [← hn]
    exact hapart

/-- After a rotation that ends well the URL in use is the one that was left just
when the place taken into use shares it. -/
theorem activeUrl_rotate_iff {url : String} (hp : p.InRange)
    (h : (rotate url).Tells p es q (.ok ())) :
    q.activeUrl = url ↔
      p.activeUrl = url ∧ Apart p.endpoints.length p.active q.active ∧
        p.urlAt q.active = p.urlAt p.active := by
  rcases tells_rotate.mp h with ⟨rfl, hsearch⟩ | ⟨hne, -, rfl, -⟩
  · obtain ⟨hapart, hsame⟩ := hsearch.apart hp
    have hurl : q.activeUrl = p.urlAt q.active := urlAt_eq_of_configured hsame _
    rw [hurl]
    exact ⟨fun h => ⟨rfl, hapart, h⟩, fun h => h.2.2⟩
  · exact ⟨fun h => absurd h hne, fun h => absurd h.1 hne⟩

/-! ## Calls one after another -/

section

variable {ω : Type} (w : Wire ω)

/-- Calls that follow one another lead from one site to the other; each may have a
deadline, and is dropped there. -/
inductive Leads (s : Site ω) : Site ω → Prop
  | start : Leads s s
  | call {t : Site ω} : Leads s t → ∀ (c : Call) (deadline : Option Nat),
      Leads s (c.routine.run w deadline t).2

variable {w} {s t : Site ω}

theorem Leads.sound {urls : List (String × UInt32)} (h : Leads w s t)
    (hs : s.pool.Sound urls) : t.pool.Sound urls := by
  induction h with
  | start => exact hs
  | call _ c deadline ih => exact a_call_leaves_a_sound_pool w deadline ih c

theorem Leads.urlAt_eq (h : Leads w s t) (hs : s.pool.Sound s.pool.configured) (i : Nat) :
    t.pool.urlAt i = s.pool.urlAt i :=
  urlAt_eq_of_configured (h.sound hs).configured i

/-- A routine that ends before its deadline runs as it does without one. -/
theorem Routine.run_of_some {α : Type} {r : Routine α} {deadline : Option Nat} {a : α}
    (h : (r.run w deadline s).1 = some a) : r.run w none s = r.run w deadline s := by
  have hnever (v : Site ω) : v.isLate none = false := rfl
  induction r generalizing s with
  | done b => rfl
  | step change next ih => exact ih _ h
  | acquire next ih => exact ih h
  | release next ih => exact ih h
  | check place url next ih =>
    simp only [run, hnever] at h ⊢
    split at h
    · cases h
    · next hlate => simpa [hlate] using ih _ h
  | update url next ih =>
    simp only [run, hnever] at h ⊢
    split at h
    · cases h
    · next hlate => simpa [hlate] using ih _ h
  | post url body next ih =>
    simp only [run, hnever] at h ⊢
    split at h
    · cases h
    · next hlate => simpa [hlate] using ih _ h

end

/-- A replay is used up by the story that it tells. -/
theorem Routine.wire_replay {α : Type} {r : Routine α} {s : Site (List Encounter)}
    {es fs : List Encounter} {q : Pool} {a : α} (h : r.Tells s.pool es q a)
    (hs : s.wire = es ++ fs) : (r.run replay none s).2.wire = fs := by
  induction r generalizing s es with
  | done b =>
    obtain ⟨rfl, -, -⟩ := h
    exact hs
  | step change next ih => exact ih _ (s := { s with pool := change s.pool }) h hs
  | acquire next ih => exact ih h hs
  | release next ih => exact ih h hs
  | check place url next ih =>
    obtain ⟨r, gs, rfl, h⟩ := h
    have ht : (replay.check url s.wire).answer.map
        (fun _ => (replay.check url s.wire).elapsed) = r ∧
        (replay.check url s.wire).wire = gs ++ fs := by
      rw [hs]
      cases r <;> exact ⟨rfl, rfl⟩
    have hnext := ih r (s := s.after (.checked url) (replay.check url s.wire)) h ht.2
    simp only [run, ht.1]
    exact hnext
  | update url next ih =>
    obtain ⟨r, gs, rfl, h⟩ := h
    have ht : (replay.update url s.wire).answer = r ∧
        (replay.update url s.wire).wire = gs ++ fs := by
      rw [hs]
      exact ⟨rfl, rfl⟩
    have hnext := ih r (s := s.after (.updated url) (replay.update url s.wire)) h ht.2
    simp only [run, ht.1]
    exact hnext
  | post url body next ih =>
    obtain ⟨a, gs, rfl, h⟩ := h
    have ht : (replay.post url body s.wire).answer = a ∧
        (replay.post url body s.wire).wire = gs ++ fs := by
      rw [hs]
      exact ⟨rfl, rfl⟩
    have hnext := ih a (s := s.after (.posted url body) (replay.post url body s.wire)) h ht.2
    simp only [run, ht.1]
    exact hnext

/-- Some calls take the endpoint at a place into use, whatever is to follow. -/
theorem exists_arrival {i : Nat} (hi : i < p.endpoints.length) :
    ∃ m : Pool, m.active = i ∧ m.configured = p.configured ∧
      ∀ fs, ∃ s t : Site (List Encounter), s.pool = p ∧ Leads replay s t ∧ t.pool = m ∧
        t.wire = fs := by
  by_cases hactive : i = p.active
  · exact ⟨p, hactive.symm, rfl, fun fs => ⟨_, ⟨p, fs, 0, []⟩, rfl, .start, rfl, rfl⟩⟩
  · obtain ⟨es, m, hsearch, hm, -⟩ := exists_rotation hi hactive
    have htells : (Call.rotate p.activeUrl).routine.Tells p es m (.ok .nothing) :=
      Routine.tells_bind_pure.mpr ⟨_, tells_rotate.mpr (Or.inl ⟨rfl, hsearch⟩), rfl⟩
    refine ⟨m, hm, by simpa using hsearch.configured_eq, fun fs => ?_⟩
    let s : Site (List Encounter) := ⟨p, es ++ fs, 0, []⟩
    obtain ⟨-, -, hpool⟩ := Routine.story_replay (s := s) htells rfl
    have hwire := Routine.wire_replay (s := s) htells rfl
    exact ⟨s, _, rfl, .call .start (.rotate p.activeUrl) none, hpool, hwire⟩

/-- A rotation may go from any place to any other. -/
theorem exists_turn {i j : Nat} (h : Apart p.endpoints.length i j) :
    ∃ s t : Site (List Encounter), s.pool = p ∧ Leads replay s t ∧
      ((rotate (p.urlAt i)).run replay none t).1 = some (.ok ()) ∧
      ((rotate (p.urlAt i)).run replay none t).2.pool.activeUrl = p.urlAt j := by
  obtain ⟨m, hactive, hsame, harrive⟩ := exists_arrival h.2.1
  have hj : j < m.endpoints.length := length_of_configured hsame ▸ h.2.2
  have hurl : m.activeUrl = p.urlAt i := by
    rw [activeUrl, hactive, urlAt_eq_of_configured hsame]
  obtain ⟨fs, q, hsearch, hq, -⟩ := exists_rotation hj (hactive ▸ h.1.symm)
  have hend : q.activeUrl = p.urlAt j := by
    rw [activeUrl, hq]
    exact urlAt_eq_of_configured (hsearch.configured_eq.trans (m.demote_configured.trans hsame)) j
  obtain ⟨s, t, hs, hlead, rfl, hwire⟩ := harrive fs
  have htells := tells_rotate.mpr (Or.inl ⟨hurl, hsearch⟩)
  obtain ⟨-, hok, hleft⟩ := Routine.story_replay htells (hwire.trans (List.append_nil fs).symm)
  exact ⟨s, t, hs, hlead, hok, by rw [hleft, hend]⟩

/-- A request may go from any place to any other. -/
theorem exists_second_try {i j : Nat} (h : Apart p.endpoints.length i j) :
    ∃ s t : Site (List Encounter), s.pool = p ∧ Leads replay s t ∧
      tried ((Call.send .null).routine.story replay t) = [i, j] := by
  obtain ⟨m, hactive, hsame, harrive⟩ := exists_arrival h.2.1
  have hlen := length_of_configured hsame
  obtain ⟨fs, q, hsearch, hq, -⟩ := exists_rotation (hlen ▸ h.2.2) (hactive ▸ h.1.symm)
  obtain ⟨k, hk⟩ : ∃ k, m.endpoints.length - 1 = k + 1 :=
    ⟨m.endpoints.length - 2, by have := h.1; have := h.2.1; have := h.2.2; omega⟩
  -- the first try fails, and the second ends the call
  obtain ⟨_, hfirst⟩ := ((Http.Answer.failed "").leaves_iff m.activeUrl).mp trivial
  have hlast : Sent k q [.posted q.active (.answered 404 "")] q
      (.error (.http 404 (Http.statusText 404 ""))) := .final rfl
  have hsent := Sent.on hfirst hsearch hlast
  rw [← hk] at hsent
  have htells := (tells_sending (c := .send .null) rfl).mpr ⟨_, hsent, rfl⟩
  obtain ⟨s, t, hs, hlead, rfl, hwire⟩ := harrive
    (.posted m.active (.failed "") :: (fs ++ [.posted q.active (.answered 404 "")]))
  obtain ⟨hstory, -⟩ := Routine.story_replay htells (hwire.trans (List.append_nil _).symm)
  refine ⟨s, t, hs, hlead, ?_⟩
  rw [hstory]
  simp [hsearch.tried_eq_nil, hactive, hq]

/-! ## Shared URLs -/

/-- In no run of a task does a rotation end well with the URL in use that it was to
leave. -/
def RotationsLeave (p : Pool) : Prop :=
  ∀ (ω : Type) (w : Wire ω) (s t : Site ω) (url : String) (deadline : Option Nat), s.pool = p →
    Leads w s t → ((rotate url).run w deadline t).1 = some (.ok ()) →
    ((rotate url).run w deadline t).2.pool.activeUrl ≠ url

/-- In no run of a task is a request sent twice in a row to one URL. -/
def TriesMove (p : Pool) : Prop :=
  ∀ (ω : Type) (w : Wire ω) (s t : Site ω) (c : Call) (body : Json), s.pool = p →
    Leads w s t → c.body? = some body →
    (tried (c.routine.story w t)).IsChain fun i j => p.urlAt i ≠ p.urlAt j

/-- The URLs of a pool differ from place to place. -/
def Distinct (p : Pool) : Prop := (p.endpoints.map (·.url)).Nodup

instance (p : Pool) : Decidable p.Distinct := inferInstanceAs (Decidable (List.Nodup _))

theorem exists_twins (h : ¬ p.Distinct) :
    ∃ i j, Apart p.endpoints.length i j ∧ p.urlAt i = p.urlAt j := by
  rw [Distinct, List.nodup_iff_getElem?_ne_getElem?] at h
  simp only [List.getElem?_map, List.length_map, not_forall, not_not] at h
  obtain ⟨i, j, hij, hj, hurl⟩ := h
  exact ⟨i, j, ⟨by omega, by omega, hj⟩, by rw [urlAt, urlAt, hurl]⟩

theorem Distinct.urlAt_ne (h : p.Distinct) {i j : Nat} (hij : Apart p.endpoints.length i j) :
    p.urlAt i ≠ p.urlAt j :=
  fun heq => hij.1 (eq_of_urlAt_eq h hij.2.1 hij.2.2 heq)

/-- After a rotation that ends well in some run the URL in use is the one that was left
just when another place shares it and was taken into use. -/
theorem activeUrl_run_rotate_iff {ω : Type} {w : Wire ω} {s t : Site ω} {url : String}
    {deadline : Option Nat} (hs : s.pool.Sound s.pool.configured) (hlead : Leads w s t)
    (hok : ((rotate url).run w deadline t).1 = some (.ok ())) :
    ((rotate url).run w deadline t).2.pool.activeUrl = url ↔
      t.pool.activeUrl = url ∧
        Apart s.pool.endpoints.length t.pool.active
          ((rotate url).run w deadline t).2.pool.active ∧
        s.pool.urlAt ((rotate url).run w deadline t).2.pool.active =
          s.pool.urlAt t.pool.active := by
  have hsound := hlead.sound hs
  have hfree := Routine.run_of_some hok
  rw [← hfree] at hok ⊢
  obtain ⟨r, hr, htells⟩ := Routine.tells_story w (rotate url) t
  rw [hok] at hr
  cases hr
  have hiff := activeUrl_rotate_iff hsound.inRange htells
  rwa [length_of_configured hsound.configured, hlead.urlAt_eq hs, hlead.urlAt_eq hs] at hiff

theorem rotationsLeave_iff (h : p.Sound p.configured) : p.RotationsLeave ↔ p.Distinct := by
  constructor
  · intro hleave
    by_contra htwins
    obtain ⟨i, j, hij, hurl⟩ := exists_twins htwins
    obtain ⟨s, t, hs, hlead, hok, hstays⟩ := exists_turn hij
    exact hleave _ replay s t _ none hs hlead hok (hstays.trans hurl.symm)
  · rintro hdistinct ω w s t url deadline rfl hlead hok hstays
    obtain ⟨-, hapart, hshared⟩ := (activeUrl_run_rotate_iff h hlead hok).mp hstays
    exact hdistinct.urlAt_ne hapart hshared.symm

theorem triesMove_iff (h : p.Sound p.configured) : p.TriesMove ↔ p.Distinct := by
  constructor
  · intro hmove
    by_contra htwins
    obtain ⟨i, j, hij, hurl⟩ := exists_twins htwins
    obtain ⟨s, t, hs, hlead, htried⟩ := exists_second_try hij
    have hchain := hmove _ replay s t (.send .null) .null hs hlead rfl
    rw [htried, List.isChain_pair] at hchain
    exact hchain hurl
  · rintro hdistinct ω w s t c body rfl hlead hc
    have hsound := hlead.sound h
    obtain ⟨r, -, hsent⟩ := sending_is_sent hc w t
    have hchain := hsent.isChain_apart hsound.inRange (length_of_configured hsound.configured)
    exact hchain.imp fun i j hij => hdistinct.urlAt_ne hij

end Pool

/-! ## The pool of a network -/

namespace Network

variable {n : Network} {p : Pool}

/-- No two endpoints that can be used have the same normal form. -/
def NoTwins (n : Network) : Prop :=
  n.usableUrls.Pairwise fun u v => Url.normalized u.url ≠ Url.normalized v.url

theorem usableUrls_ne_nil_of_pool (hp : Pool.ofNetwork n = .ok p) : n.usableUrls ≠ [] := by
  intro hnil
  rw [Pool.ofNetwork, hnil] at hp
  cases hp

theorem starts_of_pool (hp : Pool.ofNetwork n = .ok p) : p.Starts n.usableUrls :=
  (opens_of_pool (l := .unreachable) (w := ()) hp).starts (usableUrls_ne_nil_of_pool hp)

theorem sound_of_pool (hp : Pool.ofNetwork n = .ok p) : p.Sound p.configured := by
  have hstarts := starts_of_pool hp
  refine ⟨?_, rfl, fun hv => ?_⟩
  · rw [Pool.InRange, hstarts.active, ← hstarts.endpoints.length_eq, List.length_pos_iff]
    exact usableUrls_ne_nil_of_pool hp
  · rw [hstarts.verified] at hv
    cases hv

theorem normalized_urls {order : List RpcUrl} (h : p.Starts order) :
    order.map (fun u => Url.normalized u.url) = (p.endpoints.map (·.url)).map .ok := by
  have hurls : List.Forall₂ (fun u e => Url.normalized u.url = .ok e.url) order p.endpoints :=
    h.endpoints.imp fun _ _ h => h.1
  rw [List.map_map, ← List.forall₂_eq_eq_eq, List.forall₂_map_left_iff,
    List.forall₂_map_right_iff]
  exact hurls

theorem distinct_iff (hp : Pool.ofNetwork n = .ok p) : p.Distinct ↔ n.NoTwins := by
  have hinj : Function.Injective (Except.ok : String → Except RpcError String) :=
    fun _ _ h => Except.ok.inj h
  rw [Pool.Distinct, ← List.nodup_map_iff hinj, ← normalized_urls (starts_of_pool hp),
    List.Nodup, List.pairwise_map]
  rfl

/-! ## The law -/

/-- The pool of a network under a task that has it for itself. In every run a rotation
that ends well leaves another URL in use than the one it was to leave, and a request goes
to another URL with each try, exactly when no two endpoints that can be used have the same
normal form. And the URL is the same after a rotation just when another place shares it,
which that rotation took into use. -/
theorem a_failed_url_is_left_unless_another_endpoint_has_it (hp : Pool.ofNetwork n = .ok p) :
    (p.RotationsLeave ↔ n.NoTwins) ∧ (p.TriesMove ↔ n.NoTwins) ∧
    ∀ (ω : Type) (w : Pool.Wire ω) (s t : Pool.Site ω) (url : String) (deadline : Option Nat),
      s.pool = p → Pool.Leads w s t →
      ((Pool.rotate url).run w deadline t).1 = some (.ok ()) →
      let after := ((Pool.rotate url).run w deadline t).2.pool
      after.activeUrl = url ↔ t.pool.activeUrl = url ∧
        Pool.Apart p.endpoints.length t.pool.active after.active ∧
        p.urlAt after.active = p.urlAt t.pool.active := by
  have hsound := sound_of_pool hp
  refine ⟨?_, ?_, ?_⟩
  · rw [Pool.rotationsLeave_iff hsound, distinct_iff hp]
  · rw [Pool.triesMove_iff hsound, distinct_iff hp]
  · rintro ω w s t url deadline rfl hlead hok
    exact Pool.activeUrl_run_rotate_iff hsound hlead hok

/-! ## Networks of two and of three -/

theorem ofNetwork_of_entries (urls : List (String × UInt32)) (hne : n.usableUrls ≠ [])
    (h : List.Forall₂ (fun u x => entry u = .ok x) n.usableUrls urls)
    (hp : Pool.ofUrls urls = .ok p) : Pool.ofNetwork n = .ok p := by
  rw [ofNetwork_of_ne_nil hne, mapM_ok_iff.mpr h]
  exact hp

/-- A text with a URL in it has the normal form that is computed. -/
theorem entry_of_normal {u : RpcUrl} {url : String}
    (h : (Url.normalized u.url).toOption = some url) : entry u = .ok (url, u.weight) := by
  unfold entry
  cases hu : Url.normalized u.url with
  | ok url' =>
    rw [hu] at h
    cases h
    rfl
  | error e =>
    rw [hu] at h
    cases h

/-- Two endpoints, the second with a slash at its end. -/
def neighbours : Network :=
  ⟨"main", "Main", 1, [⟨"rpc", "http://a", 90⟩, ⟨"rpc", "http://b/", 80⟩], .default, .default,
    defaultTimeout⟩

theorem usableUrls_neighbours : neighbours.usableUrls = neighbours.rpcUrls :=
  List.mergeSort_of_pairwise (by decide)

theorem pool_neighbours : Pool.ofNetwork neighbours = .ok Pool.twoUp := by
  refine ofNetwork_of_entries [("http://a", 90), ("http://b", 80)]
    (by rw [usableUrls_neighbours]; decide) ?_ rfl
  rw [usableUrls_neighbours]
  exact .cons (entry_of_normal (by decide +kernel))
    (.cons (entry_of_normal (by decide +kernel)) .nil)

/-- Two endpoints of different URLs are always left for one another. -/
theorem two_apart_leave_each_other :
    Pool.ofNetwork neighbours = .ok Pool.twoUp ∧ Pool.twoUp.RotationsLeave ∧
      Pool.twoUp.TriesMove := by
  have hdistinct : Pool.twoUp.Distinct := by decide
  obtain ⟨hleave, hmove, -⟩ := a_failed_url_is_left_unless_another_endpoint_has_it pool_neighbours
  have hno : neighbours.NoTwins := (distinct_iff pool_neighbours).mp hdistinct
  exact ⟨pool_neighbours, hleave.mpr hno, hmove.mpr hno⟩

/-- Three endpoints, the first two of which have the same normal form. -/
def twins : Network :=
  ⟨"main", "Main", 1,
    [⟨"rpc", "http://a/", 90⟩, ⟨"rpc", "http://a", 80⟩, ⟨"rpc", "http://b", 70⟩],
    .default, .default, defaultTimeout⟩

/-- Their pool: the first two share their URL. -/
def twinPool : Pool :=
  ⟨[⟨"http://a", 90, true, none⟩, ⟨"http://a", 80, true, none⟩, ⟨"http://b", 70, true, none⟩],
    0, false⟩

theorem usableUrls_twins : twins.usableUrls = twins.rpcUrls :=
  List.mergeSort_of_pairwise (by decide)

theorem pool_twins : Pool.ofNetwork twins = .ok twinPool := by
  refine ofNetwork_of_entries [("http://a", 90), ("http://a", 80), ("http://b", 70)]
    (by rw [usableUrls_twins]; decide) ?_ rfl
  rw [usableUrls_twins]
  exact .cons (entry_of_normal (by decide +kernel)) (.cons (entry_of_normal (by decide +kernel))
    (.cons (entry_of_normal (by decide +kernel)) .nil))

theorem validate_twins : twins.validate = .ok () := by
  refine validate_eq_ok_iff.mpr fun flaw => ?_
  cases flaw with
  | urlScheme => simp [twins, has]
  | noUsableUrl =>
    rw [has, usableUrls_twins]
    rfl
  | _ => decide

/-- The settings have no flaw, every endpoint passes its check, and a rotation away from a
URL ends well with that URL in use. -/
theorem a_failed_url_stays_in_use :
    twins.validate = .ok () ∧ Pool.ofNetwork twins = .ok twinPool ∧
    (let s : Pool.Site (List Pool.Encounter) :=
        ⟨twinPool, [.checked 1 (.ok 0), .updated "http://a" (.ok ())], 0, []⟩
      let run := (Pool.rotate "http://a").run Pool.replay none s
      run.1 = some (.ok ()) ∧ run.2.pool.activeUrl = "http://a") :=
  ⟨validate_twins, pool_twins, rfl, rfl⟩

end Network

end ChainAccess
