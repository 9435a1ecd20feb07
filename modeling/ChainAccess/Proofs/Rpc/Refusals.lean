import ChainAccess.Pool.Run
import ChainAccess.Proofs.Contract.Answers
import ChainAccess.Proofs.Json.Compact
import ChainAccess.Proofs.Pool.Sending
import ChainAccess.Proofs.Workflow.Requests
import Mathlib.Data.List.Induction
import Mathlib.Tactic.Common
-- Errors of the node on the three ways that an answer can take: to a single call, to
-- an element of a batch, and to a batch as a whole. A single call and an element read an
-- error alike. A batch that is refused as a whole has the same code, but leaves the
-- data out, has no words where the others have some, and takes `null` for an error.

namespace ChainAccess

open Rpc (BatchElement)

/-! ## The parts of an error -/

namespace Rpc

variable {answer error : Json} {code : Int} {words : String}

/-- The code of an error, zero when it is no whole number of 64 bits. -/
def codeOf (error : Json) : Int := ((error.get? "code").bind Json.asInt?).getD 0

/-- The words of an error, when they are a text. -/
def wordsOf? (error : Json) : Option String := (error.get? "message").bind Json.asStr?

/-- The data that comes with an error, when it is a text. -/
def dataOf? (error : Json) : Option String := (error.get? "data").bind Json.asStr?

/-- The words of an error with its data behind them. -/
def fullWords (error : Json) : String :=
  (wordsOf? error).getD "unknown error" ++ (dataOf? error).elim "" fun data => " (" ++ data ++ ")"

/-- The words of an error that refuses a batch. -/
def shortWords (error : Json) : String := (wordsOf? error).getD ""

/-- The words are a text, and no data comes with them. -/
@[mk_iff]
structure Plain (error : Json) : Prop where
  words : (wordsOf? error).isSome
  data : dataOf? error = none

theorem nodeError_eq (error : Json) :
    nodeError error = .node (codeOf error) (fullWords error) := by
  unfold nodeError codeOf fullWords wordsOf? dataOf?
  cases (error.get? "data").bind Json.asStr? with
  | none => simp
  | some data => simp [String.append_assoc]

theorem shortWords_eq_fullWords_iff : shortWords error = fullWords error ↔ Plain error := by
  rw [plain_iff, shortWords, fullWords]
  cases hwords : wordsOf? error with
  | none =>
    have hlength : ("" : String).length ≠ ("unknown error" ++
        (dataOf? error).elim "" fun data => " (" ++ data ++ ")").length := by
      have hunknown : ("unknown error" : String).length = 13 := rfl
      have hempty : ("" : String).length = 0 := rfl
      rw [String.length_append]
      omega
    simp only [Option.getD_none, Option.isSome_none, Bool.false_eq_true, false_and, iff_false]
    exact fun h => hlength (congrArg String.length h)
  | some words =>
    cases hdata : dataOf? error with
    | none => simp
    | some data =>
      have hlength : words.length ≠ (words ++ (" (" ++ data ++ ")")).length := by
        simp only [String.length_append]
        have : (" (" : String).length = 2 := rfl
        omega
      simpa using fun h => hlength (congrArg String.length h)

theorem errorMember?_eq_none_iff :
    errorMember? answer = none ↔ answer.get? "error" = none ∨ answer.get? "error" = some .null := by
  unfold errorMember?
  cases answer.get? "error" with
  | none => simp
  | some error => cases error <;> simp [Json.isNull]

theorem errorMember?_eq_some_iff :
    errorMember? answer = some error ↔ answer.get? "error" = some error ∧ error ≠ .null := by
  unfold errorMember?
  rw [Option.filter_eq_some_iff]
  refine and_congr_right fun _ => ?_
  cases error <;> simp [Json.isNull]

theorem result_eq_node_iff : result answer = .error (.node code words) ↔
    ∃ error, errorMember? answer = some error ∧ code = codeOf error ∧ words = fullWords error := by
  unfold result
  cases errorMember? answer with
  | none => cases answer.get? "result" <;> simp
  | some error => simp [nodeError_eq, eq_comm]

/-- An answer with an error refuses a batch, a `null` error too. -/
theorem batchAnswers_of_error (h : answer.get? "error" = some error) :
    batchAnswers answer = .error (.node (codeOf error) (shortWords error)) := by
  cases answer with
  | obj members =>
    have hlookup : Json.lookup "error" members = some error := h
    simp only [batchAnswers, hlookup]
    rfl
  | _ => cases h

theorem batchAnswers_of_no_error (h : answer.get? "error" = none) (code : Int) (words : String) :
    batchAnswers answer ≠ .error (.node code words) := by
  cases answer with
  | obj members =>
    have hlookup : Json.lookup "error" members = none := h
    simp [batchAnswers, hlookup]
  | _ => simp [batchAnswers]

end Rpc

/-! ## Single calls -/

section Single

open Workflow

variable {answer : Json} {code : Int} {words : String}

/-- A single call that is answered so fails with `e`. -/
def FailsAlone (answer : Json) (e : RpcError) : Prop :=
  ∀ ⦃σ α : Type⦄ ⦃t : Transport σ⦄ ⦃method : String⦄ ⦃params : List Json⦄ (read : Json.Read α)
    ⦃d : Option Nat⦄ ⦃w v : World σ⦄,
    t.sendRequest method (some (.arr params)) d w = (.done answer, v) →
      t.ask method params read d w = (.failed e, v)

/-- A single call that is answered so does not fail with an error of the node. -/
def SparesAlone (answer : Json) : Prop :=
  ∀ ⦃σ α : Type⦄ ⦃t : Transport σ⦄ ⦃method : String⦄ ⦃params : List Json⦄ (read : Json.Read α)
    ⦃d : Option Nat⦄ ⦃w v : World σ⦄,
    t.sendRequest method (some (.arr params)) d w = (.done answer, v) →
      ∀ code words, (t.ask method params read d w).1 ≠ .failed (.node code words)

theorem failsAlone_of_result {e : RpcError} (h : Rpc.result answer = .error e) :
    FailsAlone answer e := by
  intro σ α t method params read d w v hanswer
  rw [Transport.ask, bind_of_done hanswer, ofExcept_bind_of_error h]
  rfl

theorem sparesAlone_of_no_error (h : Rpc.errorMember? answer = none) : SparesAlone answer := by
  intro σ α t method params read d w v hanswer code words
  rw [Transport.ask, bind_of_done hanswer]
  cases hresult : Rpc.result answer with
  | error e =>
    intro hfailed
    obtain rfl : e = .node code words := by
      rw [ofExcept_bind_of_error rfl] at hfailed
      injection hfailed
    obtain ⟨error, herror, -⟩ := Rpc.result_eq_node_iff.mp hresult
    rw [h] at herror
    cases herror
  | ok result =>
    rw [ofExcept_bind_of_ok rfl]
    intro hfailed
    cases hread : read result <;> rw [hread] at hfailed <;> cases hfailed

end Single

/-! ## Elements -/

section Element

open Batch

/-- The words of the last error among some answers. -/
def lastError? (answers : List Json) : Option String :=
  (answers.filterMap Rpc.errorMember?).getLast?.map fun error => (Rpc.nodeError error).message

theorem lastError?_append (before after : List Json) :
    lastError? (before ++ after) = (lastError? after).or (lastError? before) := by
  unfold lastError?
  rw [List.filterMap_append, List.getLast?_append]
  cases (after.filterMap Rpc.errorMember?).getLast? <;> simp

theorem lastError?_of_none {answers : List Json}
    (h : ∀ a ∈ answers, Rpc.errorMember? a = none) : lastError? answers = none := by
  have hnil : answers.filterMap Rpc.errorMember? = [] := by simpa using h
  simp [lastError?, hnil]

theorem Batch.fillSlot_error (slot : BatchElement × Bool) (answers : List Json) :
    (fillSlot slot answers).1.error = (lastError? answers).or slot.1.error := by
  induction answers using List.reverseRecOn generalizing slot with
  | nil => simp [fillSlot, lastError?]
  | append_singleton answers a ih =>
    have hfill : (fillSlot slot (answers ++ [a])).1 =
        Transport.fill (fillSlot slot answers).1 a := by
      simp [fillSlot, List.foldl_append]
    rw [hfill, lastError?_append, Transport.fill]
    cases ha : Rpc.errorMember? a with
    | none => simp [lastError?, ha, ih]
    | some error => simp [lastError?, ha]

/-- `answer` is one of the answers to element `i` of a batch of `count`: some others
come before it, and none of those after it is an error. -/
structure Answered (answer : Json) (i count : Nat) (answers before : List Json) : Prop where
  known : ∀ a ∈ answers, ∃ k < count, idOf? a = some k
  place : ∃ after, answersTo i answers = before ++ answer :: after ∧
    ∀ a ∈ after, Rpc.errorMember? a = none

/-- An element that is answered so carries `own`; without it the answer leaves the
element the error that it has from before. -/
def Marks (answer : Json) (own : Option String) : Prop :=
  ∀ ⦃σ : Type⦄ ⦃t : Transport σ⦄ ⦃calls : List BatchElement⦄ ⦃answers before : List Json⦄
    ⦃d : Option Nat⦄ ⦃w v : World σ⦄ ⦃i : Nat⦄ (hi : i < calls.length),
    t.sendRequests (Transport.batchRequests calls) d w = (.done answers, v) →
    Answered answer i calls.length answers before →
      ∃ filled call, t.sendBatchElements calls d w = (.done filled, v) ∧ filled[i]? = some call ∧
        call.error = own.or ((lastError? before).or calls[i].error)

theorem marks (answer : Json) :
    Marks answer ((Rpc.errorMember? answer).map fun error => (Rpc.nodeError error).message) := by
  intro σ t calls answers before d w v i hi hsent hanswered
  obtain ⟨after, hplace, hafter⟩ := hanswered.place
  have hfill : Transport.fillAll (calls.map (·, false)) answers = .ok _ :=
    fillAll_ok_iff.mpr ⟨by simpa using hanswered.known, rfl⟩
  refine ⟨calls.mapIdx fun i call => settledCall (answersTo i answers) call,
    settledCall (answersTo i answers) calls[i], ?_, by simp [hi], ?_⟩
  · rw [Transport.sendBatchElements, Workflow.bind_of_done hsent,
      Workflow.ofExcept_bind_of_ok hfill, settle_slots]
    rfl
  · have hne : answersTo i answers ≠ [] := by simp [hplace]
    rw [settledCall_of_ne_nil hne, fillSlot_error, hplace, List.append_cons, lastError?_append,
      lastError?_append, lastError?_of_none hafter]
    cases ha : Rpc.errorMember? answer <;> simp [lastError?, ha]

end Element

/-! ## Batches as a whole -/

section Whole

open Pool

/-- A batch that is answered so as a whole fails with `e`. -/
def FailsWhole (answer : Json) (e : RpcError) : Prop :=
  ∀ ⦃ω : Type⦄ ⦃wire : Wire ω⦄ ⦃requests : List Json⦄ ⦃d : Option Nat⦄ ⦃s s' : Site ω⦄,
    (send (.arr requests)).run wire d s = (some (.ok answer), s') →
      (sendBatch requests).run wire d s = (some (.error e), s')

/-- A batch that is answered so as a whole does not fail with an error of the node. -/
def SparesWhole (answer : Json) : Prop :=
  ∀ ⦃ω : Type⦄ ⦃wire : Wire ω⦄ ⦃requests : List Json⦄ ⦃d : Option Nat⦄ ⦃s s' : Site ω⦄,
    (send (.arr requests)).run wire d s = (some (.ok answer), s') →
      ∀ code words, ((sendBatch requests).run wire d s).1 ≠ some (.error (.node code words))

/-- What only looks at the value of a routine leaves its run as it is. -/
theorem Pool.Routine.run_bind_done {ω α β : Type} {k : α → Routine β} {f : α → β}
    (hk : ∀ a, k a = .done (f a)) (wire : Wire ω) (d : Option Nat) (r : Routine α) (s : Site ω) :
    (r >>= k).run wire d s = ((r.run wire d s).1.map f, (r.run wire d s).2) := by
  show (r.andThen k).run wire d s = _
  induction r generalizing s with
  | done a => simp only [andThen, hk, run, Option.map_some]
  | step change next ih => exact ih _ _
  | acquire next ih => exact ih _
  | release next ih => exact ih _
  | check place url next ih =>
    simp only [andThen, run]
    split
    · rfl
    · exact ih _ _
  | update url next ih =>
    simp only [andThen, run]
    split
    · rfl
    · exact ih _ _
  | post url body next ih =>
    simp only [andThen, run]
    split
    · rfl
    · exact ih _ _

theorem Pool.run_sendBatch {ω : Type} {wire : Wire ω} {requests : List Json} {d : Option Nat}
    {s s' : Site ω} {answer : Json}
    (h : (send (.arr requests)).run wire d s = (some (.ok answer), s')) :
    (sendBatch requests).run wire d s = (some (Rpc.batchAnswers answer), s') := by
  unfold sendBatch
  refine (Routine.run_bind_done (f := fun r => r.bind Rpc.batchAnswers) ?_ wire d _ s).trans ?_
  · rintro (e | answer) <;> rfl
  · rw [h]
    rfl

theorem failsWhole_of_error {answer error : Json} (h : answer.get? "error" = some error) :
    FailsWhole answer (.node (Rpc.codeOf error) (Rpc.shortWords error)) := by
  intro ω wire requests d s s' hsent
  rw [Pool.run_sendBatch hsent, Rpc.batchAnswers_of_error h]

theorem sparesWhole_of_no_error {answer : Json} (h : answer.get? "error" = none) :
    SparesWhole answer := by
  intro ω wire requests d s s' hsent code words
  rw [Pool.run_sendBatch hsent]
  simpa using Rpc.batchAnswers_of_no_error h code words

end Whole

/-! ## The law -/

/-- What a single call reads as an error of the node, an element of a batch carries in
the same words; and a batch refused as a whole has the same code, with the same words
just when they are a text and no data comes with them. An answer without the member
is an error to none of the three. A member that is `null` is one to a whole batch alone. -/
theorem an_error_reads_alike_alone_and_in_a_batch (answer : Json) :
    (∀ code words, Rpc.result answer = .error (.node code words) →
      FailsAlone answer (.node code words) ∧
      Marks answer (some (RpcError.node code words).message) ∧
      ∃ error short, answer.get? "error" = some error ∧ FailsWhole answer (.node code short) ∧
        (short = words ↔ Rpc.Plain error)) ∧
    (answer.get? "error" = none →
      SparesAlone answer ∧ Marks answer none ∧ SparesWhole answer) ∧
    (answer.get? "error" = some .null →
      SparesAlone answer ∧ Marks answer none ∧ FailsWhole answer (.node 0 "")) := by
  refine ⟨fun code words hresult => ?_, fun habsent => ?_, fun hnull => ?_⟩
  · obtain ⟨error, herror, rfl, rfl⟩ := Rpc.result_eq_node_iff.mp hresult
    have hmember := (Rpc.errorMember?_eq_some_iff.mp herror).1
    have hmarks := marks answer
    rw [herror, Option.map_some, Rpc.nodeError_eq] at hmarks
    exact ⟨failsAlone_of_result hresult, hmarks, error, Rpc.shortWords error, hmember,
      failsWhole_of_error hmember, Rpc.shortWords_eq_fullWords_iff⟩
  · have hnone := Rpc.errorMember?_eq_none_iff.mpr (.inl habsent)
    have hmarks := marks answer
    rw [hnone] at hmarks
    exact ⟨sparesAlone_of_no_error hnone, hmarks, sparesWhole_of_no_error habsent⟩
  · have hnone := Rpc.errorMember?_eq_none_iff.mpr (.inr hnull)
    have hmarks := marks answer
    rw [hnone] at hmarks
    exact ⟨sparesAlone_of_no_error hnone, hmarks, failsWhole_of_error hnull⟩

/-! ## A refused batch -/

section

open Pool

/-- An execution that reverted, with its data. -/
def reverted : Json :=
  .obj [("error", .obj [("code", .num (.nat 3)), ("data", .str "0x08c379a0"),
    ("message", .str "execution reverted")])]

/-- A wire that answers every request so. -/
def revertingWire : Wire Unit where
  check _ _ := ⟨.ok (), 0, ()⟩
  update _ _ := ⟨.ok (), 0, ()⟩
  post _ _ _ := ⟨.answered 200 ("\x7b\"error\":\x7b\"code\":3,\"message\":\"execution reverted\","
    ++ "\"data\":\"0x08c379a0\"\x7d\x7d"), 0, ()⟩

/-- One endpoint at that wire. -/
def revertingSite : Site Unit := ⟨⟨[⟨"http://a", 90, true, none⟩], 0, false⟩, (), 0, []⟩

/-- The text of the answer has its members in another order. -/
theorem verdict_reverted (url : String) :
    (revertingWire.post url (.arr []) ()).answer.verdict url = .final (.ok reverted) := by
  let written : Json := .obj [("error", .obj [("code", .num (.nat 3)),
    ("message", .str "execution reverted"), ("data", .str "0x08c379a0")])]
  have hnests : Json.Nests 2 written := by
    refine .obj fun m hm => ?_
    obtain rfl := List.mem_singleton.mp hm
    refine .obj fun m hm => ?_
    simp only [List.mem_cons, List.not_mem_nil, or_false] at hm
    rcases hm with rfl | rfl | rfl <;> constructor
  have hparse : Json.parse? written.compact = some reverted :=
    Json.parse?_compact hnests (by decide)
  have htext : (revertingWire.post url (.arr []) ()).answer = .answered 200 written.compact := rfl
  rw [htext]
  simp only [Http.Answer.verdict, hparse]
  rfl

/-- The one endpoint of the pool is asked once. -/
theorem send_reverted : ((send (.arr [])).run revertingWire none revertingSite).1 =
    some (.ok reverted) := by
  have hrun : (sendWithin (.arr []) 0).run revertingWire none revertingSite =
      (((sendOnce (.arr [])).run revertingWire none revertingSite).1.map (·.2.result), _) :=
    Routine.run_bind_done (by rintro ⟨_, _ | _⟩ <;> rfl) revertingWire none _ revertingSite
  have honce : ((sendOnce (.arr [])).run revertingWire none revertingSite).1 =
      some ("http://a", (revertingWire.post "http://a" (.arr []) ()).answer.verdict "http://a") :=
    rfl
  rw [verdict_reverted] at honce
  show ((sendWithin (.arr []) 0).run revertingWire none revertingSite).1 = _
  rw [hrun, honce]
  rfl

/-- What a single call and an element read with the data of the revert, a batch as a
whole fails with alone. -/
theorem a_refused_batch_leaves_the_data_out :
    Rpc.result reverted = .error (.node 3 "execution reverted (0x08c379a0)") ∧
    ((send (.arr [])).run revertingWire none revertingSite).1 = some (.ok reverted) ∧
    ((sendBatch []).run revertingWire none revertingSite).1 =
      some (.error (.node 3 "execution reverted")) := by
  refine ⟨by rfl, send_reverted, ?_⟩
  have hsent := send_reverted
  rcases hrun : (send (.arr [])).run revertingWire none revertingSite with ⟨o, s'⟩
  rw [hrun] at hsent
  obtain rfl : o = some (.ok reverted) := hsent
  rw [Pool.run_sendBatch hrun]
  rfl

end

end ChainAccess
