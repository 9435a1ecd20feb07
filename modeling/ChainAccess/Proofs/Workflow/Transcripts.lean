import ChainAccess.Handle
import ChainAccess.Proofs.Workflow.Outcomes
import Mathlib.Tactic.Common
-- What is exchanged over a transport. A transport can be given a transcript,
-- in which each request stands with what came back for it. A workflow over the
-- transport with the transcript does what it does over the transport alone, and
-- only ever adds to the transcript.

namespace ChainAccess

/-- A request or a batch of them, and what came back for it, if anything did in
time. -/
inductive Exchange where
  | single (request : Json) (reply : Option (Except RpcError Json))
  | batch (requests : List Json) (reply : Option (Except RpcError (List Json)))

/-- What changes on a transport, and the transcript of it. -/
structure Transcribed (σ : Type) where
  node : σ
  transcript : List Exchange

/-- The transport with a transcript. -/
def Transport.transcribed {σ : Type} (t : Transport σ) : Transport (Transcribed σ) where
  url s := t.url s.node
  connect left s :=
    let r := t.connect left s.node
    ⟨r.answer, r.elapsed, ⟨r.node, s.transcript⟩⟩
  send request left s :=
    let r := t.send request left s.node
    ⟨r.answer, r.elapsed, ⟨r.node, s.transcript ++ [.single request r.answer]⟩⟩
  sendBatch requests left s :=
    let r := t.sendBatch requests left s.node
    ⟨r.answer, r.elapsed, ⟨r.node, s.transcript ++ [.batch requests r.answer]⟩⟩
  report url left s :=
    let r := t.report url left s.node
    ⟨r.answer, r.elapsed, ⟨r.node, s.transcript⟩⟩

/-- The handle with a transcript. -/
def Handle.transcribed {σ : Type} (h : Handle σ) : Handle (Transcribed σ) :=
  ⟨h.transport.transcribed, h.timeout, h.backoff⟩

/-- The world with the transcript of what was exchanged before. -/
def World.transcribed {σ : Type} (w : World σ) (past : List Exchange) : World (Transcribed σ) :=
  ⟨w.clock, w.log, w.estimates, ⟨w.node, past⟩⟩

@[simp]
theorem World.transcribed_clock {σ : Type} (w : World σ) (past : List Exchange) :
    (w.transcribed past).clock = w.clock := rfl

namespace Workflow

variable {σ ε ε' α β : Type} {m : Workflow σ ε α} {m' : Workflow (Transcribed σ) ε α}
  {d : Option Nat} {w v : World σ} {es fs : List Exchange}

/-- What a workflow exchanges from a world on. -/
def transcript (m : Workflow (Transcribed σ) ε α) (w : World σ) : List Exchange :=
  (m.run (w.transcribed [])).2.node.transcript

/-! ## Single runs -/

/-- From `w` on, `m'` does what `m` does and adds `es` to the transcript. -/
def Transcribes (m' : Workflow (Transcribed σ) ε α) (m : Workflow σ ε α) (d : Option Nat)
    (w : World σ) (es : List Exchange) : Prop :=
  ∀ past, m' d (w.transcribed past) = ((m d w).1, (m d w).2.transcribed (past ++ es))

theorem Transcribes.transcript (h : Transcribes m' m none w es) : m'.transcript w = es := by
  rw [Workflow.transcript, Workflow.run, h []]
  rfl

theorem transcribes_value (a : α) :
    Transcribes (value a) (value a : Workflow σ ε α) d w [] := by
  intro past
  simp [value]

theorem transcribes_fail (e : ε) :
    Transcribes (fail e) (fail e : Workflow σ ε α) d w [] := by
  intro past
  simp [fail]

theorem transcribes_change {f' : World (Transcribed σ) → World (Transcribed σ)}
    {f : World σ → World σ} (hf : ∀ past, f' (w.transcribed past) = (f w).transcribed past) :
    Transcribes (change f') (change f : Workflow σ ε Unit) d w [] := by
  intro past
  simp [change, hf]

theorem transcribes_pass (ms : Nat) :
    Transcribes (pass ms) (pass ms : Workflow σ ε Unit) d w [] := by
  intro past
  cases d with
  | none => simp [pass, World.transcribed]
  | some limit =>
    by_cases hlate : limit < w.clock + ms
    · simp [pass, World.transcribed, hlate]
    · simp [pass, World.transcribed, hlate]

theorem Transcribes.bind_done {k' : α → Workflow (Transcribed σ) ε β} {k : α → Workflow σ ε β}
    {a : α} (h : Transcribes m' m d w es) (ha : m d w = (.done a, v))
    (hk : Transcribes (k' a) (k a) d v fs) :
    Transcribes (m' >>= k') (m >>= k) d w (es ++ fs) := by
  intro past
  have hm := h past
  rw [ha] at hm
  simp only [Bind.bind, andThen, hm, ha, hk (past ++ es), List.append_assoc]

theorem Transcribes.bind_stopped {k' : α → Workflow (Transcribed σ) ε β} {k : α → Workflow σ ε β}
    (h : Transcribes m' m d w es) (hstop : ∀ a, (m d w).1 ≠ .done a) :
    Transcribes (m' >>= k') (m >>= k) d w es := by
  intro past
  have hm := h past
  rcases hrun : m d w with ⟨a | e | _, v⟩
  · exact absurd (by rw [hrun]) (hstop a)
  · rw [hrun] at hm
    simp only [Bind.bind, andThen, hm, hrun]
  · rw [hrun] at hm
    simp only [Bind.bind, andThen, hm, hrun]

theorem Transcribes.caught (h : Transcribes m' m d w es) :
    Transcribes (m'.caught : Workflow (Transcribed σ) ε' (Except ε α)) m.caught d w es := by
  intro past
  have hm := h past
  rcases hrun : m d w with ⟨a | e | _, v⟩ <;>
  · rw [hrun] at hm
    simp only [Workflow.caught, hm, hrun]

theorem Transcribes.withError {f : ε → ε'} (h : Transcribes m' m d w es) :
    Transcribes (m'.withError f) (m.withError f) d w es := by
  intro past
  have hm := h past
  rcases hrun : m d w with ⟨a | e | _, v⟩ <;>
  · rw [hrun] at hm
    simp only [Workflow.withError, hm, hrun]

theorem Transcribes.within_ended {late' : Workflow (Transcribed σ) ε α} {late : Workflow σ ε α}
    {ms : Nat} {o : Outcome ε α} (h : Transcribes m' m (some (limitOf d w ms)) w es)
    (hrun : m (some (limitOf d w ms)) w = (o, v)) (ho : o ≠ .expired) :
    Transcribes (m'.within ms late') (m.within ms late) d w es := by
  intro past
  have hm := h past
  rw [hrun] at hm
  rw [within_of_ended hrun ho, within_of_ended hm ho]

/-- What takes the place of a workflow that ran out of its own time adds to it. -/
theorem Transcribes.within_late {late' : Workflow (Transcribed σ) ε α} {late : Workflow σ ε α}
    {ms : Nat} (h : Transcribes m' m (some (limitOf d w ms)) w es)
    (hrun : m (some (limitOf d w ms)) w = (.expired, v)) (hown : d.all (w.clock + ms ≤ ·) = true)
    (hlate : Transcribes late' late d v fs) :
    Transcribes (m'.within ms late') (m.within ms late) d w (es ++ fs) := by
  intro past
  have hm := h past
  rw [hrun] at hm
  rw [within_of_expired hrun hown, within_of_expired hm hown, hlate (past ++ es),
    List.append_assoc]

/-! ## All runs -/

/-- Wherever it starts, `m'` does what `m` does, and what it adds to the
transcript and what it comes to are as `P` says. -/
def Accounts (m' : Workflow (Transcribed σ) ε α) (m : Workflow σ ε α)
    (P : List Exchange → Outcome ε α → Prop) : Prop :=
  ∀ d w, ∃ es, Transcribes m' m d w es ∧ P es (m d w).1

variable {P Q : List Exchange → Outcome ε α → Prop}

theorem Accounts.mono (h : Accounts m' m P) (hPQ : ∀ es o, P es o → Q es o) :
    Accounts m' m Q := by
  intro d w
  obtain ⟨es, hes, hP⟩ := h d w
  exact ⟨es, hes, hPQ _ _ hP⟩

theorem accounts_value {a : α} (h : P [] (.done a)) :
    Accounts (value a) (value a : Workflow σ ε α) P :=
  fun _ _ => ⟨[], transcribes_value a, h⟩

theorem accounts_fail {e : ε} (h : P [] (.failed e)) :
    Accounts (fail e) (fail e : Workflow σ ε α) P :=
  fun _ _ => ⟨[], transcribes_fail e, h⟩

theorem accounts_ofExcept_bind {r : Except ε α} {k' : α → Workflow (Transcribed σ) ε β}
    {k : α → Workflow σ ε β} {R : List Exchange → Outcome ε β → Prop}
    (hok : ∀ a, r = .ok a → Accounts (k' a) (k a) R)
    (herror : ∀ e, r = .error e → R [] (.failed e)) :
    Accounts (ofExcept r >>= k') (ofExcept r >>= k) R := by
  cases r with
  | ok a => exact hok a rfl
  | error e => exact accounts_fail (herror e rfl)

theorem Accounts.bind {k' : α → Workflow (Transcribed σ) ε β} {k : α → Workflow σ ε β}
    {R : List Exchange → Outcome ε β → Prop} (h : Accounts m' m P)
    (hdone : ∀ es a, P es (.done a) → Accounts (k' a) (k a) fun fs o => R (es ++ fs) o)
    (hfailed : ∀ es e, P es (.failed e) → R es (.failed e))
    (hexpired : ∀ es, P es .expired → R es .expired) :
    Accounts (m' >>= k') (m >>= k) R := by
  intro d w
  obtain ⟨es, hes, hP⟩ := h d w
  rcases hrun : m d w with ⟨a | e | _, v⟩
  case done =>
    rw [hrun] at hP
    obtain ⟨fs, hfs, hR⟩ := hdone es a hP d v
    refine ⟨es ++ fs, hes.bind_done hrun hfs, ?_⟩
    simpa only [Bind.bind, andThen, hrun] using hR
  case failed =>
    rw [hrun] at hP
    refine ⟨es, hes.bind_stopped (by simp [hrun]), ?_⟩
    simpa only [Bind.bind, andThen, hrun] using hfailed es e hP
  case expired =>
    rw [hrun] at hP
    refine ⟨es, hes.bind_stopped (by simp [hrun]), ?_⟩
    simpa only [Bind.bind, andThen, hrun] using hexpired es hP

/-- What is said of a part with its failure caught. -/
theorem Accounts.caught (h : Accounts m' m P) :
    Accounts (m'.caught : Workflow (Transcribed σ) ε' (Except ε α)) m.caught fun es o =>
      match o with
      | .done (.ok a) => P es (.done a)
      | .done (.error e) => P es (.failed e)
      | .failed _ => False
      | .expired => P es .expired := by
  intro d w
  obtain ⟨es, hes, hP⟩ := h d w
  refine ⟨es, hes.caught, ?_⟩
  rcases hrun : m d w with ⟨a | e | _, v⟩ <;>
  · rw [hrun] at hP
    simpa only [Workflow.caught, hrun] using hP

/-- A workflow that may be cut off, with what goes on in its place then. -/
theorem Accounts.within {late' : Workflow (Transcribed σ) ε α} {late : Workflow σ ε α}
    (ms : Nat) (h : Accounts m' m P) (hPQ : ∀ es o, P es o → Q es o)
    (hlate : ∀ es, P es .expired → Accounts late' late fun fs o => Q (es ++ fs) o) :
    Accounts (m'.within ms late') (m.within ms late) Q := by
  intro d w
  obtain ⟨es, hes, hP⟩ := h (some (limitOf d w ms)) w
  rcases hrun : m (some (limitOf d w ms)) w with ⟨a | e | _, v⟩ <;> rw [hrun] at hP
  case done | failed =>
    refine ⟨es, hes.within_ended hrun (by simp), ?_⟩
    rw [within_of_ended hrun (by simp)]
    exact hPQ _ _ hP
  case expired =>
    by_cases hown : d.all (w.clock + ms ≤ ·) = true
    · obtain ⟨fs, hfs, hQ⟩ := hlate es hP d v
      refine ⟨es ++ fs, hes.within_late hrun hown hfs, ?_⟩
      rwa [within_of_expired hrun hown]
    · -- an earlier deadline cuts off the whole
      refine ⟨es, fun past => ?_, ?_⟩
      · have hm := hes past
        rw [hrun] at hm
        rw [within_of_expired_before hrun hown, within_of_expired_before hm hown]
      · rw [within_of_expired_before hrun hown]
        exact hPQ _ _ hP

/-! ## What is asked -/

/-- Whatever `m` exchanges, `Q` holds of it. -/
def AsksOnly (Q : Exchange → Prop) (m' : Workflow (Transcribed σ) ε α) (m : Workflow σ ε α) :
    Prop :=
  Accounts m' m fun es _ => ∀ x ∈ es, Q x

section

variable {Q Q' : Exchange → Prop}

theorem AsksOnly.mono (h : AsksOnly Q m' m) (hQ : ∀ x, Q x → Q' x) : AsksOnly Q' m' m :=
  Accounts.mono h fun _ _ hes x hx => hQ x (hes x hx)

theorem AsksOnly.bind {k' : α → Workflow (Transcribed σ) ε β} {k : α → Workflow σ ε β}
    (h : AsksOnly Q m' m) (hk : ∀ a, AsksOnly Q (k' a) (k a)) :
    AsksOnly Q (m' >>= k') (m >>= k) := by
  refine Accounts.bind h (fun es a hes => ?_) (fun _ _ hes => hes) (fun _ hes => hes)
  refine Accounts.mono (hk a) fun fs _ hfs x hx => ?_
  rcases List.mem_append.mp hx with hx | hx
  · exact hes x hx
  · exact hfs x hx

theorem AsksOnly.caught (h : AsksOnly Q m' m) :
    AsksOnly Q (m'.caught : Workflow (Transcribed σ) ε' (Except ε α)) m.caught := by
  refine Accounts.mono (Accounts.caught h) fun es o ho => ?_
  cases o with
  | done r => cases r <;> exact ho
  | failed e => exact ho.elim
  | expired => exact ho

theorem asksOnly_value (a : α) : AsksOnly Q (value a) (value a : Workflow σ ε α) :=
  accounts_value (by simp)

theorem asksOnly_ofExcept_bind {r : Except ε α} {k' : α → Workflow (Transcribed σ) ε β}
    {k : α → Workflow σ ε β} (hok : ∀ a, r = .ok a → AsksOnly Q (k' a) (k a)) :
    AsksOnly Q (ofExcept r >>= k') (ofExcept r >>= k) :=
  accounts_ofExcept_bind hok (by simp)

theorem asksOnly_fail (e : ε) : AsksOnly Q (fail e) (fail e : Workflow σ ε α) :=
  accounts_fail (by simp)

end

end Workflow

end ChainAccess
