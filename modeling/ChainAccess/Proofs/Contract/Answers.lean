import ChainAccess.Contract.Batch
import Mathlib.Data.List.Forall2
import Mathlib.Tactic.Common
-- The answers to a batch. They may come in any order, several for one call;
-- the last one counts, unless one of them is an error. A batch has results
-- just when every call has an answer, no answer belongs to anything else, none
-- is an error, and each last result can be decoded.

namespace ChainAccess

open Rpc (BatchElement)

/-- A list is computed just when each of its members is. -/
theorem mapM_ok_iff {ε α β : Type} {f : α → Except ε β} {xs : List α} {ys : List β} :
    xs.mapM f = .ok ys ↔ List.Forall₂ (fun x y => f x = .ok y) xs ys := by
  have hbind : ∀ {γ δ : Type} (r : Except ε γ) (k : γ → Except ε δ) (d : δ),
      (r >>= k) = .ok d ↔ ∃ c, r = .ok c ∧ k c = .ok d := by
    intro γ δ r k d
    cases r <;> simp [bind, Except.bind]
  induction xs generalizing ys with
  | nil => simp [pure, Except.pure, eq_comm]
  | cons x xs ih =>
    simp only [List.mapM_cons, hbind, ih, List.forall₂_cons_left_iff, pure, Except.pure,
      Except.ok.injEq]
    exact exists_congr fun y => ⟨fun ⟨hy, rest, hrest, h⟩ => ⟨rest, hy, hrest, h.symm⟩,
      fun ⟨rest, hy, hrest, h⟩ => ⟨hy, rest, hrest, h.symm⟩⟩

namespace Batch

/-! ## Ids -/

/-- The number of the request that an answer belongs to. -/
def idOf? (answer : Json) : Option Nat :=
  ((answer.get? "id").bind Json.asUInt64?).map UInt64.toNat

/-- The answers to the request with a number. -/
def answersTo (id : Nat) (answers : List Json) : List Json :=
  answers.filter (idOf? · = some id)

theorem answeredIndex?_eq_some_iff {count i : Nat} {answer : Json} :
    Transport.answeredIndex? count answer = some i ↔ idOf? answer = some i ∧ i < count := by
  simp [Transport.answeredIndex?, idOf?, Option.filter_eq_some_iff]

/-- Every request has an answer, no answer belongs to anything else, and none is
an error. -/
structure Complete (count : Nat) (answers : List Json) : Prop where
  known : ∀ a ∈ answers, ∃ i < count, idOf? a = some i
  answered : ∀ i < count, ∃ a ∈ answers, idOf? a = some i
  sound : ∀ a ∈ answers, Rpc.errorMember? a = none

theorem mem_answersTo {id : Nat} {answers : List Json} {a : Json} :
    a ∈ answersTo id answers ↔ a ∈ answers ∧ idOf? a = some id := by
  simp [answersTo]

/-- Completeness told of each request, when no answer belongs to anything else. -/
theorem complete_iff {count : Nat} {answers : List Json}
    (hknown : ∀ a ∈ answers, ∃ i < count, idOf? a = some i) :
    Complete count answers ↔ ∀ i < count, answersTo i answers ≠ [] ∧
      ∀ a ∈ answersTo i answers, Rpc.errorMember? a = none := by
  constructor
  · intro h i hi
    obtain ⟨a, ha, hid⟩ := h.answered i hi
    exact ⟨List.ne_nil_of_mem (mem_answersTo.mpr ⟨ha, hid⟩),
      fun a ha => h.sound a (mem_answersTo.mp ha).1⟩
  · intro h
    refine ⟨hknown, fun i hi => ?_, fun a ha => ?_⟩
    · obtain ⟨a, ha⟩ := List.exists_mem_of_ne_nil _ (h i hi).1
      exact ⟨a, mem_answersTo.mp ha⟩
    · obtain ⟨i, hi, hid⟩ := hknown a ha
      exact (h i hi).2 a (mem_answersTo.mpr ⟨ha, hid⟩)

/-! ## Filling in -/

/-- An element with all the answers to it filled in. -/
def fillSlot (slot : BatchElement × Bool) (answers : List Json) : BatchElement × Bool :=
  answers.foldl (fun slot answer => (Transport.fill slot.1 answer, true)) slot

/-- One answer goes into one slot, before the rest of them. -/
theorem mapIdx_fillSlot_cons {slots : List (BatchElement × Bool)} {answer : Json}
    {rest : List Json} {k : Nat} (hid : idOf? answer = some k)
    {g : BatchElement × Bool → BatchElement × Bool}
    (hg : ∀ slot, g slot = (Transport.fill slot.1 answer, true)) :
    ((slots.modify k g).mapIdx fun i slot => fillSlot slot (answersTo i rest)) =
      slots.mapIdx fun i slot => fillSlot slot (answersTo i (answer :: rest)) := by
  refine List.ext_getElem (by simp) fun i hi hi' => ?_
  by_cases hki : k = i
  · simp [hki, hg, answersTo, hid, fillSlot]
  · simp [hki, answersTo, hid]

theorem fillAll_ok_iff {slots filled : List (BatchElement × Bool)} {answers : List Json} :
    Transport.fillAll slots answers = .ok filled ↔
      (∀ a ∈ answers, ∃ i < slots.length, idOf? a = some i) ∧
        filled = slots.mapIdx fun i slot => fillSlot slot (answersTo i answers) := by
  induction answers generalizing slots with
  | nil =>
    have hid : (slots.mapIdx fun i slot => fillSlot slot (answersTo i [])) = slots :=
      List.ext_getElem (by simp) (by simp [answersTo, fillSlot])
    simp [Transport.fillAll, hid, eq_comm]
  | cons answer rest ih =>
    rw [Transport.fillAll]
    cases hindex : Transport.answeredIndex? slots.length answer with
    | none =>
      have hno : ¬ ∃ i < slots.length, idOf? answer = some i := by
        rintro ⟨i, hi, hid⟩
        rw [answeredIndex?_eq_some_iff.mpr ⟨hid, hi⟩] at hindex
        cases hindex
      simp [hno]
    | some k =>
      obtain ⟨hid, hk⟩ := answeredIndex?_eq_some_iff.mp hindex
      dsimp only
      rw [ih, mapIdx_fillSlot_cons hid fun _ => rfl, List.length_modify]
      simp only [List.mem_cons, forall_eq_or_imp]
      exact ⟨fun h => ⟨⟨⟨k, hk, hid⟩, h.1⟩, h.2⟩, fun h => ⟨h.1.2, h.2⟩⟩

theorem fillSlot_answered (slot : BatchElement × Bool) (answers : List Json) :
    (fillSlot slot answers).2 = (slot.2 || !answers.isEmpty) := by
  induction answers generalizing slot with
  | nil => simp [fillSlot]
  | cons a rest ih =>
    have := ih (Transport.fill slot.1 a, true)
    simpa [fillSlot] using this

/-- An element keeps the error of any answer to it. -/
theorem fillSlot_error_iff {slot : BatchElement × Bool} {answers : List Json} :
    (fillSlot slot answers).1.error = none ↔
      slot.1.error = none ∧ ∀ a ∈ answers, Rpc.errorMember? a = none := by
  induction answers generalizing slot with
  | nil => simp [fillSlot]
  | cons a rest ih =>
    rw [fillSlot, List.foldl_cons, ← fillSlot, ih, Transport.fill]
    cases ha : Rpc.errorMember? a <;> simp [ha]

/-- Without an error the last answer gives the result. -/
theorem fillSlot_result {slot : BatchElement × Bool} {answers : List Json}
    (hsound : ∀ a ∈ answers, Rpc.errorMember? a = none) (hne : answers ≠ []) :
    (fillSlot slot answers).1.result = answers.getLast?.bind (·.get? "result") := by
  obtain ⟨rest, a, rfl⟩ : ∃ rest a, answers = rest ++ [a] :=
    ⟨_, _, (List.dropLast_append_getLast hne).symm⟩
  have ha := hsound a (by simp)
  simp [fillSlot, List.foldl_append, Transport.fill, ha]

/-! ## Settled elements -/

theorem firstError?_eq_none_iff {calls : List BatchElement} :
    firstError? calls = none ↔ ∀ call ∈ calls, call.error = none := by
  simp only [firstError?, List.findSome?_eq_none_iff, Option.map_eq_none_iff, Prod.forall]
  constructor
  · intro h call hcall
    obtain ⟨i, hi, rfl⟩ := List.getElem_of_mem hcall
    exact h _ i (List.mk_mem_zipIdx_iff_getElem?.mpr (List.getElem?_eq_getElem hi))
  · intro h call i hmem
    exact h call (List.mem_of_getElem? (List.mk_mem_zipIdx_iff_getElem?.mp hmem))

/-- What the answers make of the elements of a batch, if every element has one
and none has an error. -/
def settled? (calls : List BatchElement) (answers : List Json) : Option (List BatchElement) :=
  match Transport.fillAll (calls.map (·, false)) answers with
  | .error _ => none
  | .ok slots =>
    let calls := slots.map Transport.settle
    if firstError? calls = none then some calls else none

/-- An element with the answers to it filled in, or with the error of having
none. -/
def settledCall (answers : List Json) (call : BatchElement) : BatchElement :=
  Transport.settle (fillSlot (call, false) answers)

theorem settledCall_of_ne_nil {call : BatchElement} {answers : List Json} (hne : answers ≠ []) :
    settledCall answers call = (fillSlot (call, false) answers).1 := by
  have hanswered : (fillSlot (call, false) answers).2 = true := by
    simpa [fillSlot_answered] using hne
  rw [settledCall]
  rcases hslot : fillSlot (call, false) answers with ⟨filled, answered⟩
  rw [hslot] at hanswered
  obtain rfl : answered = true := hanswered
  rfl

theorem settledCall_error_iff {call : BatchElement} {answers : List Json}
    (hfresh : call.error = none) :
    (settledCall answers call).error = none ↔
      answers ≠ [] ∧ ∀ a ∈ answers, Rpc.errorMember? a = none := by
  by_cases hne : answers = []
  · simp [hne, settledCall, fillSlot, Transport.settle]
  · simp [settledCall_of_ne_nil hne, fillSlot_error_iff, hfresh, hne]

theorem firstError?_settled_iff {calls : List BatchElement} {answers : List Json}
    (hfresh : ∀ call ∈ calls, call.error = none) :
    firstError? (calls.mapIdx fun i call => settledCall (answersTo i answers) call) = none ↔
      ∀ i < calls.length, answersTo i answers ≠ [] ∧
        ∀ a ∈ answersTo i answers, Rpc.errorMember? a = none := by
  rw [firstError?_eq_none_iff]
  constructor
  · intro h i hi
    refine (settledCall_error_iff (hfresh _ (List.getElem_mem hi))).mp (h _ ?_)
    exact List.mem_mapIdx.mpr ⟨i, hi, rfl⟩
  · intro h call hcall
    obtain ⟨i, hi, rfl⟩ := List.mem_mapIdx.mp hcall
    exact (settledCall_error_iff (hfresh _ (List.getElem_mem hi))).mpr (h i hi)

/-- The slots of a batch settle one by one. -/
theorem settle_slots (calls : List BatchElement) (answers : List Json) :
    ((calls.map (·, false)).mapIdx fun i slot => fillSlot slot (answersTo i answers)).map
      Transport.settle = calls.mapIdx fun i call => settledCall (answersTo i answers) call :=
  List.ext_getElem (by simp) (by simp [settledCall])

/-- Every element settles without an error just when the answers are
complete. -/
theorem settled?_eq_some_iff {calls settled : List BatchElement} {answers : List Json}
    (hfresh : ∀ call ∈ calls, call.error = none) :
    settled? calls answers = some settled ↔ Complete calls.length answers ∧
      settled = calls.mapIdx fun i call => settledCall (answersTo i answers) call := by
  rw [settled?]
  cases hfill : Transport.fillAll (calls.map (·, false)) answers with
  | error e =>
    have hno : ¬ Complete calls.length answers := by
      intro hcomplete
      have hfilled : Transport.fillAll (calls.map (·, false)) answers = .ok _ :=
        fillAll_ok_iff.mpr ⟨by simpa using hcomplete.known, rfl⟩
      rw [hfill] at hfilled
      cases hfilled
    simp [hno]
  | ok slots =>
    obtain ⟨hknown, rfl⟩ := fillAll_ok_iff.mp hfill
    rw [List.length_map] at hknown
    dsimp only
    rw [settle_slots, complete_iff hknown, ← firstError?_settled_iff hfresh]
    split
    · next hnone => simp [hnone, eq_comm]
    · next hsome => simp [hsome]

/-! ## Results -/

/-- The answer has values as its result: the text of bytes that the function
decodes. -/
def Gives (f : Abi.Function) (answer : Json) (values : List Abi.Value) : Prop :=
  ∃ payload bs, answer.get? "result" = some (.str payload) ∧ payloadBytes payload = .ok bs ∧
    bs ≠ [] ∧ f.returned bs = .ok values

/-- The answers are complete, and the last one to each request has its
values. -/
structure Decodes (f : Abi.Function) (count : Nat) (answers : List Json)
    (rs : List (List Abi.Value)) : Prop where
  complete : Complete count answers
  length : rs.length = count
  values : ∀ i (hi : i < rs.length),
    ∃ answer, (answersTo i answers).getLast? = some answer ∧ Gives f answer rs[i]

theorem payloadBytes_empty : payloadBytes "" = .ok [] := by decide +kernel

theorem resultOf_ok_iff {f : Abi.Function} {i : Nat} {call : BatchElement}
    {values : List Abi.Value} :
    resultOf f i call = .ok values ↔ call.error = none ∧ ∃ payload bs,
      call.result = some (.str payload) ∧ payloadBytes payload = .ok bs ∧ bs ≠ [] ∧
        f.returned bs = .ok values := by
  rcases call with ⟨method, args, result, _ | e⟩
  · cases result with
    | none => simp [resultOf]
    | some r =>
      cases r with
      | str payload =>
        by_cases hempty : payload = ""
        · subst hempty
          simp [resultOf, payloadBytes_empty]
        · cases hbytes : payloadBytes payload with
          | error fault => simp [resultOf, hempty, hbytes]
          | ok bs => by_cases hbs : bs = [] <;> simp [resultOf, hempty, hbytes, hbs]
      | _ => simp [resultOf]
  · simp [resultOf]

theorem results_ok_iff {f : Abi.Function} {calls : List BatchElement}
    {rs : List (List Abi.Value)} :
    results f calls = .ok rs ↔ rs.length = calls.length ∧
      ∀ i (hi : i < rs.length) (hc : i < calls.length), resultOf f i calls[i] = .ok rs[i] := by
  rw [results, mapM_ok_iff, List.forall₂_iff_get]
  simp only [List.length_zipIdx, List.get_eq_getElem, List.getElem_zipIdx, Nat.zero_add]
  exact ⟨fun h => ⟨h.1.symm, fun i hi hc => h.2 i hc hi⟩,
    fun h => ⟨h.1.symm, fun i hc hi => h.2 i hi hc⟩⟩

/-- The elements that settle have results just when the answers decode. -/
theorem results_settled_iff {f : Abi.Function} {calls : List BatchElement} {answers : List Json}
    {rs : List (List Abi.Value)} (hfresh : ∀ call ∈ calls, call.error = none) :
    (∃ settled, settled? calls answers = some settled ∧ results f settled = .ok rs) ↔
      Decodes f calls.length answers rs := by
  simp only [settled?_eq_some_iff hfresh]
  -- where the answers are complete, a result is what the last answer gives
  have hresult : Complete calls.length answers → ∀ i (hc : i < calls.length) (values),
      resultOf f i (settledCall (answersTo i answers) calls[i]) = .ok values ↔
        ∃ answer, (answersTo i answers).getLast? = some answer ∧ Gives f answer values := by
    intro hcomplete i hc values
    obtain ⟨a, ha, hid⟩ := hcomplete.answered i hc
    have hne : answersTo i answers ≠ [] := List.ne_nil_of_mem (mem_answersTo.mpr ⟨ha, hid⟩)
    have hsound : ∀ a ∈ answersTo i answers, Rpc.errorMember? a = none :=
      fun a ha => hcomplete.sound a (mem_answersTo.mp ha).1
    have herror := (settledCall_error_iff (hfresh _ (List.getElem_mem hc))).mpr ⟨hne, hsound⟩
    obtain ⟨answer, hlast⟩ : ∃ answer, (answersTo i answers).getLast? = some answer :=
      ⟨_, List.getLast?_eq_some_getLast hne⟩
    rw [resultOf_ok_iff, settledCall_of_ne_nil hne, fillSlot_result hsound hne]
    rw [settledCall_of_ne_nil hne] at herror
    simp [herror, hlast, Gives]
  constructor
  · rintro ⟨settled, ⟨hcomplete, rfl⟩, hresults⟩
    obtain ⟨hlength, hvalues⟩ := results_ok_iff.mp hresults
    rw [List.length_mapIdx] at hlength
    refine ⟨hcomplete, hlength, fun i hi => ?_⟩
    have hvalue := hvalues i hi (by simpa [hlength] using hi)
    rw [List.getElem_mapIdx] at hvalue
    exact (hresult hcomplete i (by omega) _).mp hvalue
  · intro h
    refine ⟨_, ⟨h.complete, rfl⟩, results_ok_iff.mpr ⟨by simp [h.length], fun i hi hc => ?_⟩⟩
    rw [List.getElem_mapIdx]
    exact (hresult h.complete i (by simpa using hc) _).mpr (h.values i hi)

end Batch

end ChainAccess
