import ChainAccess.Contract.Binding
import ChainAccess.Proofs.Contract.Payloads
import ChainAccess.Proofs.Workflow.Requests
import Mathlib.Tactic.Common
-- Functions that share a name. Call data is made by the first that takes so many
-- arguments, and a call decodes what comes back by the same one. Return data that is
-- decoded apart from its call comes with no arguments: the first function of the name
-- decodes it, which makes no difference where both have outputs of the same kinds.

namespace ChainAccess

open Workflow

namespace Abi

/-! ## Looking up -/

namespace Interface

variable {i : Interface} {method : String} {f : Function}

theorem mem_overloads : f ∈ i.overloads method ↔ f ∈ i.functions ∧ f.name = method := by
  simp [overloads]

theorem overloads_eq_nil_iff : i.overloads method = [] ↔ ∀ f ∈ i.functions, f.name ≠ method := by
  simp [overloads]

/-- A name that no function has is not found, whatever the number of arguments. -/
theorem find_of_unknown (hunknown : i.overloads method = []) (arity : Option Nat) :
    i.find method arity = .error (.methodNotFound method) := by
  unfold find
  rw [hunknown]

theorem find_none_eq_ok_iff : i.find method none = .ok f ↔ (i.overloads method).head? = some f := by
  unfold find
  cases i.overloads method with
  | nil => simp
  | cons first rest => simp

theorem find_some_eq_ok_iff {n : Nat} :
    i.find method (some n) = .ok f ↔
      (i.overloads method).find? (·.inputs.length = n) = some f ∨
        (i.overloads method).find? (·.inputs.length = n) = none ∧
          (i.overloads method).head? = some f := by
  unfold find
  cases i.overloads method with
  | nil => simp
  | cons first rest =>
    dsimp only
    cases (first :: rest).find? (·.inputs.length = n) <;> simp

/-- Call data is made by the first function that takes so many arguments; the one
that is looked up in its absence does not take them either. -/
theorem callData_ok_iff {args : List Value} {data : Bytes} :
    i.callData method args = .ok data ↔
      ∃ f, (i.overloads method).find? (·.inputs.length = args.length) = some f ∧
        f.callData args = .ok data := by
  have hbind : i.callData method args = .ok data ↔
      ∃ f, i.find method (some args.length) = .ok f ∧ f.callData args = .ok data := by
    unfold callData
    cases i.find method (some args.length) <;> simp [bind, Except.bind]
  rw [hbind]
  constructor
  · rintro ⟨f, hfind, hdata⟩
    rcases find_some_eq_ok_iff.mp hfind with htakes | ⟨hnone, hfirst⟩
    · exact ⟨f, htakes, hdata⟩
    · have hmem : f ∈ i.overloads method := List.mem_of_head? hfirst
      have hcount : ¬ f.inputs.length = args.length := by
        simpa using List.find?_eq_none.mp hnone f hmem
      unfold Function.callData Function.encodeCall at hdata
      rw [if_pos (Ne.symm hcount)] at hdata
      cases hdata
  · rintro ⟨f, htakes, hdata⟩
    exact ⟨f, find_some_eq_ok_iff.mpr (Or.inl htakes), hdata⟩

theorem returned_of_first {first : Function} (hfirst : (i.overloads method).head? = some first)
    (data : Bytes) : i.returned method data = first.returned data := by
  unfold returned
  rw [find_none_eq_ok_iff.mpr hfirst]
  rfl

end Interface

/-! ## Decoding by kinds -/

namespace Function

/-- Only the kinds of parameters matter to what they read. -/
theorem decodeParams_congr {ps qs : List Param} (h : ps.map Param.kind = qs.map Param.kind)
    (c : Cursor) : decodeParams ps c = decodeParams qs c := by
  induction ps generalizing qs c with
  | nil =>
    obtain rfl : qs = [] := by simpa using h.symm
    rfl
  | cons p ps ih =>
    cases qs with
    | nil => simp at h
    | cons q qs =>
      simp only [List.map_cons, List.cons.injEq] at h
      unfold decodeParams
      rw [h.1]
      simp only [ih h.2]

theorem returned_congr {f g : Function} (hname : f.name = g.name)
    (houtputs : f.outputs.map Param.kind = g.outputs.map Param.kind) (data : Bytes) :
    f.returned data = g.returned data := by
  unfold returned decodeOutput
  rw [hname, decodeParams_congr houtputs]

end Function

end Abi

/-! ## Calls -/

namespace Contract

variable {σ : Type} {c : Contract} {t : Transport σ} {method : String} {args : List Abi.Value}
  {f : Abi.Function} {data output : Bytes} {d : Option Nat} {w v : World σ}

/-- A method that no function has is not found, and nothing is sent. -/
theorem call_of_unknown (hunknown : c.interface.overloads method = []) (t : Transport σ)
    (args : List Abi.Value) : c.call t method args = fail (.methodNotFound method) := by
  unfold call
  rw [ofExcept_bind_of_error (Abi.Interface.find_of_unknown hunknown _)]

/-- A call of one function: it makes the data, and it decodes what comes back. -/
def callBy (c : Contract) (t : Transport σ) (f : Abi.Function) (args : List Abi.Value) :
    Workflow σ RpcError (List Abi.Value) := do
  let data ← ofExcept (f.callData args)
  let output ← t.call (.reading c.address data)
  ofExcept (f.returned output)

theorem call_of_found (hfound : c.interface.find method (some args.length) = .ok f)
    (t : Transport σ) : c.call t method args = c.callBy t f args := by
  unfold call
  rw [ofExcept_bind_of_ok hfound]
  rfl

theorem callBy_of_answer (hdata : f.callData args = .ok data)
    (hanswer : t.call (.reading c.address data) d w = (.done output, v)) :
    c.callBy t f args d w = ofExcept (f.returned output) d v := by
  unfold callBy
  rw [ofExcept_bind_of_ok hdata, bind_of_done hanswer]

/-- Call data that can be made is made by one of the functions with the name, the
first that takes so many arguments. A call that the node answers comes to what this
one makes of the answer; decoded apart from its call, the answer comes to what the
first function with the name makes of it. So both agree just where these two
functions do, and on every answer where the two have outputs of the same kinds. -/
theorem an_answer_decoded_apart_is_read_by_the_first_overload (c : Contract) (t : Transport σ)
    (method : String) (args : List Abi.Value) {data : Bytes}
    (hdata : c.interface.callData method args = .ok data) :
    ∃ picked first,
      (c.interface.overloads method).find? (·.inputs.length = args.length) = some picked ∧
      (c.interface.overloads method).head? = some first ∧
      (∀ output, c.interface.returned method output = first.returned output) ∧
      ∀ d w v output, t.call (.reading c.address data) d w = (.done output, v) →
        c.call t method args d w = ofExcept (picked.returned output) d v ∧
        (c.call t method args d w = ofExcept (c.interface.returned method output) d v ↔
          picked.returned output = first.returned output) ∧
        (picked.outputs.map Abi.Param.kind = first.outputs.map Abi.Param.kind →
          c.call t method args d w = ofExcept (c.interface.returned method output) d v) := by
  obtain ⟨picked, hpicked, hencoded⟩ := Abi.Interface.callData_ok_iff.mp hdata
  have hmem := List.mem_of_find?_eq_some hpicked
  obtain ⟨first, hfirst⟩ : ∃ first, (c.interface.overloads method).head? = some first :=
    Option.isSome_iff_exists.mp (List.isSome_head?.mpr (List.ne_nil_of_mem hmem))
  have hfound : c.interface.find method (some args.length) = .ok picked :=
    Abi.Interface.find_some_eq_ok_iff.mpr (Or.inl hpicked)
  have hapart := Abi.Interface.returned_of_first hfirst
  refine ⟨picked, first, hpicked, hfirst, hapart, fun d w v output hanswer => ?_⟩
  have hcall : c.call t method args d w = ofExcept (picked.returned output) d v := by
    rw [call_of_found hfound, callBy_of_answer hencoded hanswer]
  have hagree : c.call t method args d w = ofExcept (c.interface.returned method output) d v ↔
      picked.returned output = first.returned output := by
    rw [hcall, hapart, ofExcept_inj]
  refine ⟨hcall, hagree, fun houtputs => hagree.mpr (Abi.Function.returned_congr ?_ houtputs _)⟩
  -- both have the name of the method
  rw [(Abi.Interface.mem_overloads.mp hmem).2,
    (Abi.Interface.mem_overloads.mp (List.mem_of_head? hfirst)).2]

/-! Three functions of one name, and a node that returns the same word to each. -/

/-- Stakes in all, by the staker, and whether there is one by the staker and the epoch. -/
def stakes : Contract where
  name := "StakeManager"
  address := default
  interface := ⟨[⟨"stake", [], [.mk "" "uint256" []]⟩,
    ⟨"stake", [.mk "id" "uint32" []], [.mk "amount" "uint256" []]⟩,
    ⟨"stake", [.mk "id" "uint32" [], .mk "epoch" "uint32" []], [.mk "" "bool" []]⟩]⟩

/-- The word of the number one. -/
def oneWord : Bytes := Bytes.ofNat 32 1

/-- The node returns the word to every call. -/
def oneForAll : Transport Unit :=
  .ofSend "http://a" (fun _ _ s => ⟨some (.ok (.obj [("result", oneWord.toJson)])), 5, s⟩)
    fun _ _ s => ⟨some (.ok []), 5, s⟩

theorem call_oneForAll (request : CallRequest) (w : World Unit) :
    ∃ v, oneForAll.call request none w = (.done oneWord, v) := by
  have hread : Bytes.read oneWord.toJson = .ok oneWord :=
    Bytes.read_of_bytes? (Hex.bytes?_encode oneWord)
  exact ⟨_, Transport.ask_of_read rfl rfl hread⟩

/-- The number of a staker is decoded apart from its call as by the call. -/
theorem a_stake_is_read_by_the_first_overload :
    ∃ data, stakes.interface.callData "stake" [.uint 7 32] = .ok data ∧
      ∃ v, oneForAll.call (.reading stakes.address data) none (World.start ()) =
          (.done oneWord, v) ∧
        stakes.call oneForAll "stake" [.uint 7 32] none (World.start ()) =
          (.done [.uint 1 256], v) ∧
        stakes.interface.returned "stake" oneWord = .ok [.uint 1 256] := by
  obtain ⟨data, hdata⟩ : ∃ data, stakes.interface.callData "stake" [.uint 7 32] = .ok data :=
    ⟨_, rfl⟩
  obtain ⟨v, hanswer⟩ := call_oneForAll (.reading stakes.address data) (World.start ())
  obtain ⟨picked, first, hpicked, hfirst, hapart, hcalls⟩ :=
    an_answer_decoded_apart_is_read_by_the_first_overload stakes oneForAll "stake" [.uint 7 32]
      hdata
  cases hpicked
  cases hfirst
  have hvalue : stakes.interface.returned "stake" oneWord = .ok [.uint 1 256] := rfl
  have hcall := (hcalls none _ v oneWord hanswer).2.2 rfl
  rw [hvalue] at hcall
  exact ⟨data, hdata, v, hanswer, hcall, hvalue⟩

/-- The call says that there is a stake; decoded apart from the call, the same answer
is a number. -/
theorem another_overload_reads_a_number_for_a_truth_value :
    ∃ data, stakes.interface.callData "stake" [.uint 7 32, .uint 3 32] = .ok data ∧
      ∃ v, oneForAll.call (.reading stakes.address data) none (World.start ()) =
          (.done oneWord, v) ∧
        stakes.call oneForAll "stake" [.uint 7 32, .uint 3 32] none (World.start ()) =
          (.done [.bool true], v) ∧
        stakes.interface.returned "stake" oneWord = .ok [.uint 1 256] ∧
        stakes.call oneForAll "stake" [.uint 7 32, .uint 3 32] none (World.start ()) ≠
          ofExcept (stakes.interface.returned "stake" oneWord) none v := by
  obtain ⟨data, hdata⟩ :
      ∃ data, stakes.interface.callData "stake" [.uint 7 32, .uint 3 32] = .ok data := ⟨_, rfl⟩
  obtain ⟨v, hanswer⟩ := call_oneForAll (.reading stakes.address data) (World.start ())
  obtain ⟨picked, hpicked, hencoded⟩ := Abi.Interface.callData_ok_iff.mp hdata
  have hfound := Abi.Interface.find_some_eq_ok_iff.mpr (Or.inl hpicked)
  have hcall : stakes.call oneForAll "stake" [.uint 7 32, .uint 3 32] none (World.start ()) =
      ofExcept (picked.returned oneWord) none v := by
    rw [call_of_found hfound, callBy_of_answer hencoded hanswer]
  cases hpicked
  have hvalue : stakes.interface.returned "stake" oneWord = .ok [.uint 1 256] := rfl
  refine ⟨data, hdata, v, hanswer, hcall, hvalue, ?_⟩
  rw [hcall, Ne, ofExcept_inj, hvalue]
  intro hsame
  cases hsame

end Contract

end ChainAccess
