import ChainAccess.Proofs.Pool.Story
import Mathlib.Data.List.Basic
import Mathlib.Tactic.Common
-- All that a search for an endpoint can do when it has the pool for itself: it
-- finds none of its candidates, or takes the first into use that passes its
-- check. A rotation is a search among the alternatives after the failure is
-- noted, and a connection one that begins with the endpoint in use.

namespace ChainAccess.Pool

variable {α β : Type}

/-! ## Stories of routines in sequence -/

namespace Routine

variable {p q : Pool} {es : List Encounter}

/-- The stories that begin with an answer and go on in two parts. -/
theorem answered_andThen {ρ : Type} {heard : ρ → Encounter} {next : ρ → Routine α}
    {k : α → Routine β} {b : β}
    (h : ∀ r es, ((next r).andThen k).Tells p es q b ↔
      ∃ fs m a gs, es = fs ++ gs ∧ (next r).Tells p fs m a ∧ (k a).Tells m gs q b) :
    (∃ r fs, es = heard r :: fs ∧ ((next r).andThen k).Tells p fs q b) ↔
      ∃ fs m a gs, es = fs ++ gs ∧ (∃ r hs, fs = heard r :: hs ∧ (next r).Tells p hs m a) ∧
        (k a).Tells m gs q b := by
  constructor
  · rintro ⟨r, es', rfl, ht⟩
    obtain ⟨fs, m, a, gs, rfl, h1, h2⟩ := (h r es').mp ht
    exact ⟨_ :: fs, m, a, gs, rfl, ⟨r, fs, rfl, h1⟩, h2⟩
  · rintro ⟨_, m, a, gs, rfl, ⟨r, fs, rfl, h1⟩, h2⟩
    exact ⟨r, fs ++ gs, rfl, (h r _).mpr ⟨fs, m, a, gs, rfl, h1, h2⟩⟩

theorem tells_andThen {r : Routine α} {k : α → Routine β} {b : β} :
    (r.andThen k).Tells p es q b ↔
      ∃ fs m a gs, es = fs ++ gs ∧ r.Tells p fs m a ∧ (k a).Tells m gs q b := by
  induction r generalizing p es with
  | done a =>
    constructor
    · intro h
      exact ⟨[], p, a, es, rfl, ⟨rfl, rfl, rfl⟩, h⟩
    · rintro ⟨fs, m, a, gs, rfl, ⟨rfl, rfl, rfl⟩, h⟩
      exact h
  | step change next ih => exact ih _
  | acquire next ih => exact ih
  | release next ih => exact ih
  | check place url next ih => exact answered_andThen fun r _ => ih r
  | update url next ih => exact answered_andThen fun r _ => ih r
  | post url body next ih => exact answered_andThen fun r _ => ih r

theorem tells_bind {r : Routine α} {k : α → Routine β} {b : β} :
    (r >>= k).Tells p es q b ↔
      ∃ fs m a gs, es = fs ++ gs ∧ r.Tells p fs m a ∧ (k a).Tells m gs q b := tells_andThen

@[simp] theorem tells_pure {a b : α} :
    (pure a : Routine α).Tells p es q b ↔ es = [] ∧ q = p ∧ b = a := Iff.rfl

theorem tells_bind_pure {r : Routine α} {f : α → β} {b : β} :
    (r >>= fun a => pure (f a)).Tells p es q b ↔ ∃ a, r.Tells p es q a ∧ b = f a := by
  simp only [tells_bind, tells_pure]
  constructor
  · rintro ⟨fs, m, a, gs, rfl, h, rfl, rfl, rfl⟩
    exact ⟨a, by simpa using h, rfl⟩
  · rintro ⟨a, h, rfl⟩
    exact ⟨es, q, a, [], by simp, h, rfl, rfl, rfl⟩

@[simp] theorem tells_view_bind {f : Pool → α} {k : α → Routine β} {b : β} :
    (view f >>= k).Tells p es q b ↔ (k (f p)).Tells p es q b := Iff.rfl

@[simp] theorem tells_step_bind {f : Pool → Pool} {g : Pool → α} {k : α → Routine β} {b : β} :
    ((step f fun p => .done (g p)) >>= k).Tells p es q b ↔ (k (g p)).Tells (f p) es q b := Iff.rfl

@[simp] theorem tells_lock_bind {k : Unit → Routine β} {b : β} :
    (lock >>= k).Tells p es q b ↔ (k ()).Tells p es q b := Iff.rfl

@[simp] theorem tells_unlock_bind {k : Unit → Routine β} {b : β} :
    (unlock >>= k).Tells p es q b ↔ (k ()).Tells p es q b := Iff.rfl

@[simp] theorem tells_tryUrl_bind {i : Nat} {url : String}
    {k : Except RpcError Nat → Routine β} {b : β} :
    (tryUrl i url >>= k).Tells p es q b ↔
      ∃ r fs, es = .checked i r :: fs ∧ (k r).Tells p fs q b := Iff.rfl

@[simp] theorem tells_pointTo_bind {url : String} {k : Except RpcError Unit → Routine β} {b : β} :
    (pointTo url >>= k).Tells p es q b ↔
      ∃ r fs, es = .updated url r :: fs ∧ (k r).Tells p fs q b := Iff.rfl

end Routine

open Routine

/-! ## The search -/

/-- Each of some endpoints failed its check, in order. -/
def Refusals (missed : List Nat) (es : List Encounter) : Prop :=
  List.Forall₂ (fun i e => ∃ failure, e = .checked i (.error failure)) missed es

/-- What checking candidates can do: none passes, or the first that passes is
found. -/
inductive Probed (p : Pool) (candidates : List Nat) : List Encounter → Pool → Option Nat → Prop
  | none {es} : Refusals candidates es → Probed p candidates es (p.refused candidates) none
  | found {missed i rest es ms} : candidates = missed ++ i :: rest → Refusals missed es →
      Probed p candidates (es ++ [.checked i (.ok ms)]) ((p.refused missed).markReached i ms)
        (some i)

theorem Probed.head {p : Pool} {i ms : Nat} {rest : List Nat} :
    Probed p (i :: rest) [.checked i (.ok ms)] (p.markReached i ms) (some i) := by
  have hc : i :: rest = [] ++ i :: rest := rfl
  exact .found hc .nil

theorem Probed.later {p q : Pool} {i : Nat} {rest : List Nat} {es : List Encounter}
    {r : Option Nat} (h : Probed (p.markFailed i) rest es q r) (failure : RpcError) :
    Probed p (i :: rest) (.checked i (.error failure) :: es) q r := by
  cases h with
  | none hr => exact .none (.cons ⟨failure, rfl⟩ hr)
  | @found missed j rest' fs ms hc hr =>
    have hc' : i :: rest = (i :: missed) ++ j :: rest' := by rw [hc]; rfl
    have hr' : Refusals (i :: missed) (.checked i (.error failure) :: fs) :=
      .cons ⟨failure, rfl⟩ hr
    exact .found hc' hr'

theorem tells_probe {candidates : List Nat} {p q : Pool} {es : List Encounter} {r : Option Nat} :
    (probe candidates).Tells p es q r ↔ Probed p candidates es q r := by
  induction candidates generalizing p es with
  | nil =>
    constructor
    · rintro ⟨rfl, rfl, rfl⟩
      exact .none .nil
    · intro h
      cases h with
      | none h => cases h; exact ⟨rfl, rfl, rfl⟩
      | found h => simp at h
  | cons i rest ih =>
    simp only [probe, tells_view_bind, tells_tryUrl_bind]
    constructor
    · rintro ⟨answer, fs, rfl, h⟩
      cases answer with
      | ok ms =>
        obtain ⟨rfl, rfl, rfl⟩ := h
        exact .head
      | error failure => exact (ih.mp h).later failure
    · intro h
      cases h with
      | none h =>
        cases h with
        | cons he h =>
          obtain ⟨failure, rfl⟩ := he
          exact ⟨_, _, rfl, ih.mpr (.none h)⟩
      | @found missed j rest' fs ms hc h =>
        cases h with
        | nil =>
          simp only [List.nil_append, List.cons.injEq] at hc
          obtain ⟨rfl, rfl⟩ := hc
          exact ⟨_, _, rfl, rfl, rfl, rfl⟩
        | cons he h =>
          obtain ⟨failure, rfl⟩ := he
          simp only [List.cons_append, List.cons.injEq] at hc
          obtain ⟨rfl, hc⟩ := hc
          exact ⟨_, _, rfl, ih.mpr (.found hc h)⟩

/-- What a search can do: no candidate passes its check; the first that passes
is taken into use; or the client cannot be pointed to it. -/
inductive Searched (p : Pool) (candidates : List Nat) :
    List Encounter → Pool → Except RpcError Unit → Prop
  | none {es} : Refusals candidates es →
      Searched p candidates es (p.refused candidates) (.error .noHealthyEndpoint)
  | taken {missed i rest es ms} : candidates = missed ++ i :: rest → Refusals missed es →
      Searched p candidates (es ++ [.checked i (.ok ms), .updated (p.urlAt i) (.ok ())])
        (((p.refused missed).markReached i ms).activate i) (.ok ())
  | unusable {missed i rest es ms failure} : candidates = missed ++ i :: rest →
      Refusals missed es →
      Searched p candidates (es ++ [.checked i (.ok ms), .updated (p.urlAt i) (.error failure)])
        ((p.refused missed).markReached i ms) (.error failure)

theorem tells_search {candidates : List Nat} {p q : Pool} {es : List Encounter}
    {r : Except RpcError Unit} :
    (search candidates).Tells p es q r ↔ Searched p candidates es q r := by
  have hurl : ∀ missed i ms, ((p.refused missed).markReached i ms).urlAt i = p.urlAt i :=
    fun missed i ms => urlAt_eq_of_configured (by simp) i
  simp only [search, tells_bind, tells_probe]
  constructor
  · rintro ⟨fs, m, found, gs, rfl, hp, h⟩
    cases hp with
    | none hr =>
      obtain ⟨rfl, rfl, rfl⟩ := h
      simpa using Searched.none hr
    | found hc hr =>
      simp only [takeUp, tells_view_bind, tells_pointTo_bind, hurl] at h
      obtain ⟨u, hs, rfl, h⟩ := h
      rw [List.append_assoc]
      cases u with
      | ok u =>
        obtain ⟨rfl, rfl, rfl⟩ := h
        exact .taken hc hr
      | error failure =>
        obtain ⟨rfl, rfl, rfl⟩ := h
        exact .unusable hc hr
  · intro h
    cases h with
    | none hr => exact ⟨es, _, none, [], by simp, .none hr, rfl, rfl, rfl⟩
    | @taken missed i rest fs ms hc hr =>
      refine ⟨fs ++ [.checked i (.ok ms)], _, some i, [.updated (p.urlAt i) (.ok ())],
        ?_, .found hc hr, ?_⟩
      · rw [List.append_assoc]; rfl
      simp only [takeUp, tells_view_bind, tells_pointTo_bind, hurl]
      exact ⟨.ok (), [], rfl, rfl, rfl, rfl⟩
    | @unusable missed i rest fs ms failure hc hr =>
      refine ⟨fs ++ [.checked i (.ok ms)], _, some i, [.updated (p.urlAt i) (.error failure)],
        ?_, .found hc hr, ?_⟩
      · rw [List.append_assoc]; rfl
      simp only [takeUp, tells_view_bind, tells_pointTo_bind, hurl]
      exact ⟨.error failure, [], rfl, rfl, rfl, rfl⟩

/-! ## Rotations and connections -/

variable {p q : Pool} {es : List Encounter} {r : Except RpcError Unit}

theorem tells_rotate {url : String} :
    (rotate url).Tells p es q r ↔
      (p.activeUrl = url ∧ Searched p.demote p.demote.alternatives es q r) ∨
      (p.activeUrl ≠ url ∧ es = [] ∧ q = p ∧ r = .ok ()) := by
  simp only [rotate, tells_lock_bind, tells_step_bind, rotationFrom?, afterFailureAt]
  by_cases hurl : p.activeUrl = url
  · simp only [hurl, if_true, tells_bind, tells_search, ne_eq, not_true, false_and, or_false,
      true_and]
    constructor
    · rintro ⟨fs, m, a, gs, rfl, hs, h⟩
      cases a with
      | ok u =>
        obtain ⟨rfl, rfl, rfl⟩ := h
        simpa using hs
      | error e =>
        obtain ⟨rfl, rfl, rfl⟩ := h
        simpa using hs
    · intro hs
      refine ⟨es, q, r, [], by simp, hs, ?_⟩
      cases r with
      | ok u => exact ⟨rfl, rfl, rfl⟩
      | error e => exact ⟨rfl, rfl, rfl⟩
  · simp [hurl]

theorem tells_ensureConnected :
    ensureConnected.Tells p es q r ↔
      (p.verified = true ∧ es = [] ∧ q = p ∧ r = .ok ()) ∨
      (p.verified = false ∧ Searched p p.activeFirst es q r) := by
  simp only [ensureConnected, tells_view_bind]
  cases hv : p.verified with
  | true => simp
  | false =>
    simp only [Bool.false_eq_true, if_false, tells_lock_bind, tells_view_bind, hv, false_and,
      false_or, true_and]
    rw [tells_bind]
    simp only [tells_search, tells_unlock_bind, tells_pure]
    constructor
    · rintro ⟨fs, m, a, gs, rfl, hs, h⟩
      obtain ⟨rfl, rfl, rfl⟩ := h
      simpa using hs
    · intro hs
      exact ⟨es, q, r, [], by simp, hs, rfl, rfl, rfl⟩

end ChainAccess.Pool
