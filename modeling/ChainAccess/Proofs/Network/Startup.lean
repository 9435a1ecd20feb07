import ChainAccess.Pool.Http
import ChainAccess.Proofs.Contract.Answers
import Mathlib.Data.List.Forall2
import Mathlib.Tactic.Common
-- What starts from the settings of a network. The pool, the client and the handle
-- start alike. With settings that have no flaw they fail only over a URL that cannot
-- be read, never for want of endpoints, and the pool has the endpoints by their weight.

namespace ChainAccess

/-! ## Endpoints by weight -/

namespace RpcUrl

/-- The URL of the endpoint can be read. -/
def Parses (u : RpcUrl) : Prop := ∃ url, Url.ofString u.url = .ok url

/-- The configured endpoints that have a weight, each as often as it is configured, by
descending weight and in the configured order among equals. -/
structure ByWeight (configured order : List RpcUrl) : Prop where
  perm : order.Perm (configured.filter (0 < ·.weight))
  descending : order.Pairwise fun u v => v.weight ≤ u.weight
  stable : ∀ weight, 0 < weight →
    order.filter (·.weight = weight) = configured.filter (·.weight = weight)

variable {configured order : List RpcUrl}

theorem ByWeight.mem_iff (h : ByWeight configured order) {u : RpcUrl} :
    u ∈ order ↔ u ∈ configured ∧ 0 < u.weight := by
  rw [h.perm.mem_iff, List.mem_filter, decide_eq_true_eq]

/-- Lists by descending weight agree when they agree on each weight: both start with the
first endpoint of the greatest weight. -/
theorem eq_of_descending {us vs : List RpcUrl} (hperm : us.Perm vs)
    (hus : us.Pairwise fun u v => v.weight ≤ u.weight)
    (hvs : vs.Pairwise fun u v => v.weight ≤ u.weight)
    (hsame : ∀ weight, us.filter (·.weight = weight) = vs.filter (·.weight = weight)) :
    us = vs := by
  induction us generalizing vs with
  | nil => exact (List.nil_perm.mp hperm).symm
  | cons u us ih =>
    obtain ⟨v, vs, rfl⟩ := List.exists_cons_of_ne_nil fun h => List.cons_ne_nil u us
      (List.perm_nil.mp (h ▸ hperm))
    have hu : u.weight ≤ v.weight := by
      rcases List.mem_cons.mp (hperm.mem_iff.mp List.mem_cons_self) with rfl | hmem
      · exact UInt32.le_refl _
      · exact List.rel_of_pairwise_cons hvs hmem
    have hv : v.weight ≤ u.weight := by
      rcases List.mem_cons.mp (hperm.mem_iff.mpr List.mem_cons_self) with rfl | hmem
      · exact UInt32.le_refl _
      · exact List.rel_of_pairwise_cons hus hmem
    have hfirst : u = v := by
      have hheads := hsame u.weight
      rw [List.filter_cons_of_pos (by simp), List.filter_cons_of_pos
        (by simpa using UInt32.le_antisymm hv hu)] at hheads
      exact (List.cons.inj hheads).1
    subst hfirst
    rw [ih (List.perm_cons u |>.mp hperm) hus.of_cons hvs.of_cons fun weight => ?_]
    have hboth := hsame weight
    rw [List.filter_cons, List.filter_cons] at hboth
    split at hboth
    · exact (List.cons.inj hboth).2
    · exact hboth

/-- There is one such order. -/
theorem ByWeight.unique {order' : List RpcUrl} (h : ByWeight configured order)
    (h' : ByWeight configured order') : order' = order := by
  refine eq_of_descending (h'.perm.trans h.perm.symm) h'.descending h.descending fun weight => ?_
  by_cases hpos : 0 < weight
  · rw [h'.stable weight hpos, h.stable weight hpos]
  · have hnone : ∀ {us}, ByWeight configured us → us.filter (·.weight = weight) = [] := by
      intro us hus
      refine List.filter_eq_nil_iff.mpr fun u hu hweight => hpos ?_
      rw [← of_decide_eq_true hweight]
      exact (hus.mem_iff.mp hu).2
    rw [hnone h', hnone h]

/-- The comparison that endpoints are sorted by. -/
def noLighter (u v : RpcUrl) : Bool := v.weight ≤ u.weight

theorem noLighter_trans (u v t : RpcUrl) (h : noLighter u v) (h' : noLighter v t) :
    noLighter u t :=
  decide_eq_true (UInt32.le_trans (of_decide_eq_true h') (of_decide_eq_true h))

theorem noLighter_total (u v : RpcUrl) : noLighter u v || noLighter v u := by
  simpa [noLighter] using UInt32.le_total v.weight u.weight

/-- Sorting keeps the order among the endpoints of one weight, which are sorted already. -/
theorem filter_mergeSort (us : List RpcUrl) (weight : UInt32) :
    (us.mergeSort noLighter).filter (·.weight = weight) = us.filter (·.weight = weight) := by
  have hsorted : (us.filter (·.weight = weight)).Pairwise fun u v => noLighter u v := by
    refine List.pairwise_of_forall_mem_list fun u hu v hv => ?_
    simp only [List.mem_filter, decide_eq_true_eq] at hu hv
    simp [noLighter, hu.2, hv.2]
  have hsub := List.sublist_mergeSort noLighter_trans noLighter_total hsorted List.filter_sublist
  have hkept : (us.filter (·.weight = weight)).Sublist
      ((us.mergeSort noLighter).filter (·.weight = weight)) := by
    simpa using hsub.filter (·.weight = weight)
  have hlength := ((List.mergeSort_perm us noLighter).filter (·.weight = weight)).length_eq
  exact (hkept.eq_of_length hlength.symm).symm

/-- Where all the endpoints can be used that have a weight, they are used by weight. -/
theorem byWeight_mergeSort (hkinds : ∀ u ∈ configured, u.kind = "rpc") :
    ByWeight configured ((configured.filter isUsable).mergeSort noLighter) := by
  have husable : configured.filter isUsable = configured.filter (0 < ·.weight) :=
    List.filter_congr fun u hu => by simp [isUsable, hkinds u hu]
  refine ⟨?_, ?_, fun weight hpos => ?_⟩
  · rw [husable]
    exact List.mergeSort_perm _ _
  · exact (List.pairwise_mergeSort noLighter_trans noLighter_total _).imp of_decide_eq_true
  · rw [filter_mergeSort, husable, List.filter_filter]
    refine List.filter_congr fun u _ => ?_
    by_cases hweight : u.weight = weight
    · simp [hweight, hpos]
    · simp [hweight]

end RpcUrl

/-! ## Reading URLs -/

/-- A list is computed, or the first of its members that is not gives the error. -/
theorem exists_mapM {ε α β : Type} (f : α → Except ε β) (xs : List α) :
    ((∃ ys, xs.mapM f = .ok ys) ∧ ∀ x ∈ xs, ∃ b, f x = .ok b) ∨
      ∃ before x after e, xs = before ++ x :: after ∧ (∀ y ∈ before, ∃ b, f y = .ok b) ∧
        f x = .error e ∧ xs.mapM f = .error e := by
  induction xs with
  | nil => exact Or.inl ⟨⟨[], rfl⟩, by simp⟩
  | cons x rest ih =>
    rw [List.mapM_cons]
    cases hx : f x with
    | error e => exact Or.inr ⟨[], x, rest, e, rfl, by simp, hx, rfl⟩
    | ok b =>
      rcases ih with ⟨⟨ys, hys⟩, hrest⟩ | ⟨before, y, after, e, rfl, hbefore, hy, he⟩
      · exact Or.inl ⟨⟨b :: ys, by rw [hys]; rfl⟩, List.forall_mem_cons.mpr ⟨⟨b, hx⟩, hrest⟩⟩
      · exact Or.inr ⟨x :: before, y, after, e, rfl,
          List.forall_mem_cons.mpr ⟨⟨b, hx⟩, hbefore⟩, hy, by rw [he]; rfl⟩

/-- The error for a URL that cannot be read. -/
def Url.refusal (s : String) (f : Url.Fault) : RpcError :=
  .config ("Invalid URL " ++ s ++ ": " ++ f.message)

/-! ## Starting -/

namespace Pool

/-- The pool as it starts with endpoints in an order: by their URLs in normal form, all
counted as healthy and none timed, the first one in use. -/
structure Starts (order : List RpcUrl) (p : Pool) : Prop where
  endpoints : List.Forall₂ (fun u e => Url.normalized u.url = .ok e.url ∧ e.weight = u.weight ∧
    e.healthy = true ∧ e.latency = none) order p.endpoints
  active : p.active = 0
  verified : p.verified = false

end Pool

namespace Network

variable {ω : Type} {n : Network} {l : Pool.Line ω} {w : ω} {p : Pool} {e : RpcError}

/-- Pool, client and handle start over a line, all with the same pool. -/
structure Opens (n : Network) (l : Pool.Line ω) (w : ω) (p : Pool) : Prop where
  pool : Pool.ofNetwork n = .ok p
  client : Transport.ofNetwork n l w = .ok (Pool.transport l.wire, p.site w)
  handle : Handle.ofNetwork n l w =
    .ok (⟨Pool.transport l.wire, n.timeout.toNat, n.backoff⟩, p.site w)

/-- Pool, client and handle all fail with the same error. -/
structure Refuses (n : Network) (l : Pool.Line ω) (w : ω) (e : RpcError) : Prop where
  pool : Pool.ofNetwork n = .error e
  client : Transport.ofNetwork n l w = .error e
  handle : Handle.ofNetwork n l w = .error e

theorem opens_of_pool (h : Pool.ofNetwork n = .ok p) : n.Opens l w p := by
  refine ⟨h, ?_, ?_⟩
  · rw [Transport.ofNetwork, h]
    rfl
  · rw [Handle.ofNetwork, Transport.ofNetwork, h]
    rfl

theorem refuses_of_pool (h : Pool.ofNetwork n = .error e) : n.Refuses l w e := by
  refine ⟨h, ?_, ?_⟩
  · rw [Transport.ofNetwork, h]
    rfl
  · rw [Handle.ofNetwork, Transport.ofNetwork, h]
    rfl

/-- What one of them fails with, all of them fail with. -/
theorem refuses_of_any (h : Pool.ofNetwork n = .error e ∨ Transport.ofNetwork n l w = .error e ∨
    Handle.ofNetwork n l w = .error e) : n.Refuses l w e := by
  cases hpool : Pool.ofNetwork n with
  | ok p =>
    have hopens : n.Opens l w p := opens_of_pool hpool
    rw [hpool, hopens.client, hopens.handle] at h
    simp at h
  | error e' =>
    have hrefuses : n.Refuses l w e' := refuses_of_pool hpool
    rw [hpool, hrefuses.client, hrefuses.handle] at h
    simp only [Except.error.injEq, or_self] at h
    exact h ▸ hrefuses

/-! ## Settings without a flaw -/

theorem validate_eq_ok_iff : n.validate = .ok () ↔ ∀ flaw, n.has flaw = false := by
  have hall : (∀ flaw ∈ flaws, ¬ n.has flaw = true) ↔ ∀ flaw, n.has flaw = false := by
    refine ⟨fun h flaw => ?_, fun h flaw _ => by simp [h flaw]⟩
    have hmem : flaw ∈ flaws := by cases flaw <;> decide
    simpa using h flaw hmem
  rw [← hall, ← List.find?_eq_none, validate]
  cases flaws.find? n.has <;> simp

theorem kinds_of_validate (h : n.validate = .ok ()) : ∀ u ∈ n.rpcUrls, u.kind = "rpc" := by
  simpa [has] using validate_eq_ok_iff.mp h .urlKind

theorem usableUrls_ne_nil_of_validate (h : n.validate = .ok ()) : n.usableUrls ≠ [] := by
  simpa [has] using validate_eq_ok_iff.mp h .noUsableUrl

theorem byWeight_usableUrls (h : n.validate = .ok ()) :
    RpcUrl.ByWeight n.rpcUrls n.usableUrls := RpcUrl.byWeight_mergeSort (kinds_of_validate h)

/-! ## The pool of a network -/

/-- The URL of an endpoint in its normal form, with the weight. -/
def entry (u : RpcUrl) : Except RpcError (String × UInt32) :=
  (Url.normalized u.url).map fun url => (url, u.weight)

theorem entry_ok_iff {u : RpcUrl} {x : String × UInt32} :
    entry u = .ok x ↔ Url.normalized u.url = .ok x.1 ∧ x.2 = u.weight := by
  obtain ⟨url, weight⟩ := x
  unfold entry
  cases Url.normalized u.url <;> simp [Except.map, eq_comm]

theorem parses_of_normalized {u : RpcUrl} {s : String} (h : Url.normalized u.url = .ok s) :
    u.Parses := by
  unfold Url.normalized at h
  split at h
  · cases h
  · next url hurl => exact ⟨url, hurl⟩

theorem parses_of_entry {u : RpcUrl} {x : String × UInt32} (h : entry u = .ok x) : u.Parses :=
  parses_of_normalized (entry_ok_iff.mp h).1

/-- What fails with an entry is that its URL cannot be read. -/
theorem entry_error {u : RpcUrl} (h : entry u = .error e) :
    ∃ f, Url.ofString u.url = .error f ∧ e = Url.refusal u.url f := by
  unfold entry Url.normalized at h
  split at h
  · next f hf =>
    cases h
    exact ⟨f, hf, rfl⟩
  · cases h

theorem ofNetwork_of_ne_nil (hne : n.usableUrls ≠ []) :
    Pool.ofNetwork n = n.usableUrls.mapM entry >>= Pool.ofUrls := by
  unfold Pool.ofNetwork
  rw [if_neg (by simpa using hne)]
  rfl

theorem starts_of_entries {order : List RpcUrl} {urls : List (String × UInt32)}
    (h : List.Forall₂ (fun u x => entry u = .ok x) order urls) :
    Pool.Starts order ⟨urls.map fun (url, weight) => ⟨url, weight, true, none⟩, 0, false⟩ := by
  refine ⟨?_, rfl, rfl⟩
  rw [List.forall₂_map_right_iff]
  refine h.imp fun u x hx => ?_
  obtain ⟨hurl, hweight⟩ := entry_ok_iff.mp hx
  exact ⟨hurl, hweight, rfl, rfl⟩

/-- The pool has an endpoint for each that can be used, unless the URL of one cannot be
read: the first of these is the one complained of. -/
theorem exists_pool (hne : n.usableUrls ≠ []) :
    ((∃ p, Pool.ofNetwork n = .ok p ∧ p.Starts n.usableUrls) ∧ ∀ u ∈ n.usableUrls, u.Parses) ∨
      ∃ before u after f, n.usableUrls = before ++ u :: after ∧ (∀ v ∈ before, v.Parses) ∧
        Url.ofString u.url = .error f ∧ Pool.ofNetwork n = .error (Url.refusal u.url f) := by
  rw [ofNetwork_of_ne_nil hne]
  rcases exists_mapM entry n.usableUrls with ⟨⟨urls, hurls⟩, hall⟩ |
      ⟨before, u, after, e, horder, hbefore, hu, he⟩
  · have hentries := mapM_ok_iff.mp hurls
    have hnonempty : urls.isEmpty = false := by
      cases urls with
      | nil => exact absurd (List.forall₂_nil_right_iff.mp hentries) hne
      | cons x rest => rfl
    refine Or.inl ⟨⟨_, ?_, starts_of_entries hentries⟩, fun u hu => ?_⟩
    · rw [hurls]
      show Pool.ofUrls urls = _
      rw [Pool.ofUrls, if_neg (by simp [hnonempty])]
    · obtain ⟨x, hx⟩ := hall u hu
      exact parses_of_entry hx
  · obtain ⟨f, hf, rfl⟩ := entry_error hu
    refine Or.inr ⟨before, u, after, f, horder, fun v hv => ?_, hf, by rw [he]; rfl⟩
    obtain ⟨x, hx⟩ := hbefore v hv
    exact parses_of_entry hx

/-! ## Success and failure -/

theorem not_parses_of_error {u : RpcUrl} {f : Url.Fault} (h : Url.ofString u.url = .error f) :
    ¬ u.Parses := by
  rintro ⟨url, hurl⟩
  rw [h] at hurl
  cases hurl

theorem opens_iff (hne : n.usableUrls ≠ []) :
    (∃ p, n.Opens l w p) ↔ ∀ u ∈ n.usableUrls, u.Parses := by
  rcases exists_pool hne with ⟨⟨p, hp, -⟩, hall⟩ | ⟨before, u, after, f, horder, -, hf, he⟩
  · exact ⟨fun _ => hall, fun _ => ⟨p, opens_of_pool hp⟩⟩
  · refine ⟨fun ⟨p, hopens⟩ => ?_, fun hall => ?_⟩
    · rw [hopens.pool] at he
      cases he
    · exact absurd (hall u (by simp [horder])) (not_parses_of_error hf)

theorem Opens.starts (h : n.Opens l w p) (hne : n.usableUrls ≠ []) : p.Starts n.usableUrls := by
  rcases exists_pool hne with ⟨⟨p', hp', hstarts⟩, -⟩ | ⟨before, u, after, f, -, -, -, he⟩
  · rw [h.pool] at hp'
    cases hp'
    exact hstarts
  · rw [h.pool] at he
    cases he

theorem refuses_iff (hne : n.usableUrls ≠ []) :
    (∃ e, n.Refuses l w e) ↔ ∃ u ∈ n.usableUrls, ¬ u.Parses := by
  rcases exists_pool hne with ⟨⟨p, hp, -⟩, hall⟩ | ⟨before, u, after, f, horder, -, hf, he⟩
  · refine ⟨fun ⟨e, hrefuses⟩ => ?_, fun ⟨u, hu, hnot⟩ => absurd (hall u hu) hnot⟩
    rw [hrefuses.pool] at hp
    cases hp
  · exact ⟨fun _ => ⟨u, by simp [horder], not_parses_of_error hf⟩, fun _ => ⟨_, refuses_of_pool he⟩⟩

/-- The first URL in the order that cannot be read is the one complained of. -/
theorem Refuses.first (h : n.Refuses l w e) (hne : n.usableUrls ≠ []) :
    ∃ before u after f, n.usableUrls = before ++ u :: after ∧ (∀ v ∈ before, v.Parses) ∧
      Url.ofString u.url = .error f ∧ e = Url.refusal u.url f := by
  rcases exists_pool hne with ⟨⟨p, hp, -⟩, -⟩ | ⟨before, u, after, f, horder, hbefore, hf, he⟩
  · rw [h.pool] at hp
    cases hp
  · rw [h.pool] at he
    exact ⟨before, u, after, f, horder, hbefore, hf, Except.error.inj he⟩

/-- The errors of a network and of a pool without endpoints. -/
def emptinessErrors (n : Network) : List RpcError :=
  [.config ("Network " ++ n.slug ++ " has no usable RPC endpoints"),
    .config "No RPC endpoints configured"]

theorem refusal_not_mem_emptinessErrors (s : String) (f : Url.Fault) :
    Url.refusal s f ∉ n.emptinessErrors := by
  have hhead : ("Invalid URL " ++ s ++ ": " ++ f.message).toList.head? = some 'I' := by
    simp [String.toList_append]
  intro hmem
  simp only [emptinessErrors, Url.refusal, List.mem_cons, List.not_mem_nil, or_false,
    RpcError.config.injEq] at hmem
  rcases hmem with hmessage | hmessage
  · rw [hmessage] at hhead
    simp [String.toList_append] at hhead
  · rw [hmessage] at hhead
    simp at hhead

theorem Refuses.not_mem_emptinessErrors (h : n.Refuses l w e) (hne : n.usableUrls ≠ []) :
    e ∉ n.emptinessErrors := by
  obtain ⟨before, u, after, f, -, -, -, rfl⟩ := h.first hne
  exact refusal_not_mem_emptinessErrors u.url f

/-- Settings without a flaw lead to a pool, a client and a handle on the endpoints that
have a weight, by weight. They lead to none of these just when the URL of such an endpoint
cannot be read, and all three then complain of the first one; they never complain of a lack
of endpoints. -/
theorem a_valid_network_starts_by_weight (hvalid : n.validate = .ok ()) (l : Pool.Line ω) (w : ω) :
    ∃ order, RpcUrl.ByWeight n.rpcUrls order ∧
      (∀ other, RpcUrl.ByWeight n.rpcUrls other → other = order) ∧ order ≠ [] ∧
      ((∃ p, n.Opens l w p) ↔ ∀ u ∈ n.rpcUrls, 0 < u.weight → u.Parses) ∧
      (∀ p, n.Opens l w p → p.Starts order) ∧
      ((∃ e, n.Refuses l w e) ↔ ∃ u ∈ n.rpcUrls, 0 < u.weight ∧ ¬ u.Parses) ∧
      (∀ e, n.Refuses l w e → ∃ before u after f, order = before ++ u :: after ∧
        (∀ v ∈ before, v.Parses) ∧ Url.ofString u.url = .error f ∧
        e = .config ("Invalid URL " ++ u.url ++ ": " ++ f.message)) ∧
      ∀ e ∈ n.emptinessErrors, Pool.ofNetwork n ≠ .error e ∧ Transport.ofNetwork n l w ≠ .error e ∧
        Handle.ofNetwork n l w ≠ .error e := by
  have hne := usableUrls_ne_nil_of_validate hvalid
  have horder := byWeight_usableUrls hvalid
  refine ⟨n.usableUrls, horder, fun _ => horder.unique, hne, ?_, fun p h => h.starts hne, ?_,
    fun e h => h.first hne, fun e hempty => ?_⟩
  · rw [opens_iff hne]
    simp only [horder.mem_iff, and_imp]
  · rw [refuses_iff hne]
    simp only [horder.mem_iff, and_assoc]
  · have hno : ¬ n.Refuses l w e := fun h => h.not_mem_emptinessErrors hne hempty
    exact ⟨fun h => hno (refuses_of_any (Or.inl h)),
      fun h => hno (refuses_of_any (Or.inr (Or.inl h))),
      fun h => hno (refuses_of_any (Or.inr (Or.inr h)))⟩

/-- A network of a spare endpoint without weight, a light one, and three heavy ones, the
last of them the first once more in another form; all else by default. -/
def withSpare : Network :=
  ⟨"main", "Main", 1, [⟨"rpc", "http://spare", 0⟩, ⟨"rpc", "http://light", 1⟩,
    ⟨"rpc", "http://heavy", 5⟩, ⟨"rpc", "http://other", 5⟩, ⟨"rpc", "http://heavy/", 5⟩],
    .default, .default, defaultTimeout⟩

/-- The endpoints of this network in the order in which they are used. -/
def heavyFirst : List RpcUrl :=
  [⟨"rpc", "http://heavy", 5⟩, ⟨"rpc", "http://other", 5⟩, ⟨"rpc", "http://heavy/", 5⟩,
    ⟨"rpc", "http://light", 1⟩]

theorem byWeight_heavyFirst : RpcUrl.ByWeight withSpare.rpcUrls heavyFirst where
  perm := by decide
  descending := by decide
  stable weight hpos := by
    by_cases hheavy : weight = 5
    · subst hheavy
      rfl
    · by_cases hlight : weight = 1
      · subst hlight
        rfl
      · -- of another weight there is only the spare one
        have hzero : weight ≠ 0 := by
          rintro rfl
          simp at hpos
        simp [heavyFirst, withSpare, Ne.symm hheavy, Ne.symm hlight, Ne.symm hzero]

/-- The heavy endpoints come before the light one, in the order of the settings and one of
them twice, and the spare one is left out. -/
theorem a_network_with_a_spare_starts_by_weight :
    withSpare.validate = .ok () ∧ ∃ p, withSpare.Opens Pool.Line.unreachable () p ∧
      p.endpoints.map (fun e => (e.url, e.weight)) =
        [("http://heavy", 5), ("http://other", 5), ("http://heavy", 5), ("http://light", 1)] := by
  have hvalid : withSpare.validate = .ok () := by
    refine validate_eq_ok_iff.mpr fun flaw => ?_
    cases flaw with
    | urlScheme => simp [withSpare, has]
    | noUsableUrl =>
      simp [withSpare, has, usableUrls, RpcUrl.isUsable, ← List.length_eq_zero_iff]
    | _ => decide
  have hheavy : Url.normalized "http://heavy" = .ok "http://heavy" := by decide +kernel
  have hother : Url.normalized "http://other" = .ok "http://other" := by decide +kernel
  have hagain : Url.normalized "http://heavy/" = .ok "http://heavy" := by decide +kernel
  have hlight : Url.normalized "http://light" = .ok "http://light" := by decide +kernel
  obtain ⟨order, -, hunique, -, hopens, hstarts, -⟩ :=
    a_valid_network_starts_by_weight hvalid Pool.Line.unreachable ()
  obtain rfl := hunique heavyFirst byWeight_heavyFirst
  have hparse : ∀ u ∈ withSpare.rpcUrls, 0 < u.weight → u.Parses := by
    simp only [withSpare, List.forall_mem_cons]
    exact ⟨by simp, fun _ => parses_of_normalized hlight, fun _ => parses_of_normalized hheavy,
      fun _ => parses_of_normalized hother, fun _ => parses_of_normalized hagain, by simp⟩
  obtain ⟨p, hp⟩ := hopens.mpr hparse
  refine ⟨hvalid, p, hp, ?_⟩
  have hendpoints := (hstarts p hp).endpoints
  simp only [heavyFirst, List.forall₂_cons_left_iff, List.forall₂_nil_left_iff] at hendpoints
  obtain ⟨e₁, _, ⟨h₁, w₁, -⟩, ⟨e₂, _, ⟨h₂, w₂, -⟩, ⟨e₃, _, ⟨h₃, w₃, -⟩,
    ⟨e₄, _, ⟨h₄, w₄, -⟩, rfl, rfl⟩, rfl⟩, rfl⟩, hlist⟩ := hendpoints
  simp only [hheavy, hother, hagain, hlight, Except.ok.injEq] at h₁ h₂ h₃ h₄
  simp [hlist, w₁, w₂, w₃, w₄, ← h₁, ← h₂, ← h₃, ← h₄]

end Network

end ChainAccess
