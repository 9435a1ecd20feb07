import ChainAccess.Chain.Block
import ChainAccess.Chain.CallRequest
import ChainAccess.Chain.Log
import ChainAccess.Chain.Receipt
import ChainAccess.Proofs.Chain.Scalars
-- Calls, filters, headers, receipts and log entries come back from their JSON. What
-- an object does not say is what was left out of it, and each record overlooks the
-- names that are not its own.

namespace ChainAccess

open Json (Nests Shape nests_map nests_ofOption readList_map readOption_of_read
  readOption_ofOption)

/-! ## Calls -/

namespace CallRequest

theorem governs : shape.Governs read := by
  refine ⟨_, fun v => rfl, fun r r' h => ?_⟩
  simp only [Json.Record.get, Json.Record.get?, Json.Record.getD, h "from" rfl, h "to" rfl,
    h "gasPrice" rfl, h "value" rfl, h "data" rfl]

/-- A call is read back, whichever of its optional values are left out. -/
theorem read_toJson (c : CallRequest) : read c.toJson = .ok c := by
  have haddress (a : Address) : Json.readOption Address.read a.toJson = .ok (some a) :=
    readOption_of_read rfl a.read_toJson
  have hword (w : Word) : Json.readOption Quantity.readWord (Quantity.ofWord w) = .ok (some w) :=
    readOption_of_read rfl (Quantity.readWord_ofWord w)
  obtain ⟨sender, target, gasPrice, value, data⟩ := c
  cases sender <;> cases gasPrice <;> cases value <;>
    simp [read, toJson, shape, optionMember, haddress, hword]

theorem nests_toJson (c : CallRequest) : Nests 1 c.toJson := by
  obtain ⟨sender, target, gasPrice, value, data⟩ := c
  refine .obj ?_
  cases sender <;> cases gasPrice <;> cases value <;>
    simp [optionMember, Address.toJson, Quantity.ofWord, Bytes.toJson, Nests.str]

theorem restores : shape.Restores read toJson :=
  governs.restores rfl (by decide) nests_toJson read_toJson

end CallRequest

/-! ## Log entries and their filters -/

namespace LogFilter

theorem governs : shape.Governs read := by
  refine ⟨_, fun v => rfl, fun r r' h => ?_⟩
  simp only [Json.Record.get, Json.Record.getD, h "fromBlock" rfl, h "toBlock" rfl,
    h "address" rfl, h "topics" rfl]

/-- A filter is read back, be its lists empty or not. -/
theorem read_toJson (f : LogFilter) : read f.toJson = .ok f := by
  obtain ⟨first, last, address, topics⟩ := f
  have haddress := readList_map Address.read_toJson address
  have htopics := readList_map (readOption_ofOption Hash.read_toJson fun _ => rfl) topics
  cases address <;> cases topics <;>
    simp_all [read, toJson, shape, listMember]

theorem nests_toJson (f : LogFilter) : Nests 2 f.toJson := by
  obtain ⟨first, last, address, topics⟩ := f
  have haddress : Nests 1 (.arr (address.map Address.toJson)) := nests_map (fun _ => .str _) _
  have htopics : Nests 1 (.arr (topics.map (Json.ofOption Hash.toJson))) :=
    nests_map (nests_ofOption fun _ => .str _) _
  refine .obj ?_
  cases address <;> cases topics <;>
    simp_all [listMember, Quantity.ofUInt64, Nests.str]

theorem restores : shape.Restores read toJson :=
  governs.restores rfl (by decide) nests_toJson read_toJson

end LogFilter

namespace LogEntry

theorem governs : shape.Governs read := by
  refine ⟨_, fun v => rfl, fun r r' h => ?_⟩
  simp only [Json.Record.get, Json.Record.get?, Json.Record.getD, h "address" rfl,
    h "topics" rfl, h "data" rfl, h "blockNumber" rfl, h "transactionHash" rfl, h "logIndex" rfl]

theorem read_toJson (l : LogEntry) : read l.toJson = .ok l := by
  have htopics := readList_map Hash.read_toJson l.topics
  have hnumber := readOption_ofOption Quantity.readUInt64_ofUInt64 fun _ => rfl
  have hhash := readOption_ofOption Hash.read_toJson (fun _ => rfl) l.transactionHash
  simp [read, toJson, shape, htopics, hnumber, hhash]

theorem nests_toJson (l : LogEntry) : Nests 2 l.toJson := by
  have htopics : Nests 1 (.arr (l.topics.map Hash.toJson)) := nests_map (fun _ => .str _) _
  have hnumber (o : Option UInt64) : Nests 1 (.ofOption Quantity.ofUInt64 o) :=
    nests_ofOption (fun _ => .str _) o
  have hhash : Nests 1 (.ofOption Hash.toJson l.transactionHash) :=
    nests_ofOption (fun _ => .str _) _
  refine .obj ?_
  simp [htopics, hnumber, hhash, Address.toJson, Bytes.toJson, Nests.str]

theorem restores : shape.Restores read toJson :=
  governs.restores rfl (by decide) nests_toJson read_toJson

end LogEntry

/-! ## Headers and receipts -/

namespace BlockHeader

theorem governs : shape.Governs read := by
  refine ⟨_, fun v => rfl, fun r r' h => ?_⟩
  simp only [Json.Record.get, Json.Record.get?, Json.Record.getD, h "number" rfl, h "hash" rfl,
    h "gasLimit" rfl, h "timestamp" rfl]

theorem read_toJson (b : BlockHeader) : read b.toJson = .ok b := by
  have hhash := readOption_ofOption Hash.read_toJson (fun _ => rfl) b.hash
  simp [read, toJson, shape, hhash]

theorem nests_toJson (b : BlockHeader) : Nests 1 b.toJson := by
  have hhash : Nests 0 (.ofOption Hash.toJson b.hash) := nests_ofOption (fun _ => .str _) _
  refine .obj ?_
  simp [hhash, Quantity.ofUInt64, Nests.str]

theorem restores : shape.Restores read toJson :=
  governs.restores rfl (by decide) nests_toJson read_toJson

end BlockHeader

namespace Receipt

theorem governs : shape.Governs read := by
  refine ⟨_, fun v => rfl, fun r r' h => ?_⟩
  simp only [Json.Record.get, Json.Record.get?, Json.Record.getD, h "transactionHash" rfl,
    h "blockNumber" rfl, h "gasUsed" rfl, h "status" rfl]

theorem read_toJson (r : Receipt) : read r.toJson = .ok r := by
  have hnumber := readOption_ofOption Quantity.readUInt64_ofUInt64 fun _ => rfl
  simp [read, toJson, shape, hnumber]

theorem nests_toJson (r : Receipt) : Nests 1 r.toJson := by
  have hnumber (o : Option UInt64) : Nests 0 (.ofOption Quantity.ofUInt64 o) :=
    nests_ofOption (fun _ => .str _) o
  refine .obj ?_
  simp [hnumber, Hash.toJson, Nests.str]

theorem restores : shape.Restores read toJson :=
  governs.restores rfl (by decide) nests_toJson read_toJson

end Receipt

/-- Calls, filters, headers, receipts and log entries all come back from what is written
of them, whatever else stands in the object. -/
theorem wire_values_come_back :
    CallRequest.shape.Restores CallRequest.read CallRequest.toJson ∧
      LogFilter.shape.Restores LogFilter.read LogFilter.toJson ∧
      BlockHeader.shape.Restores BlockHeader.read BlockHeader.toJson ∧
      Receipt.shape.Restores Receipt.read Receipt.toJson ∧
      LogEntry.shape.Restores LogEntry.read LogEntry.toJson :=
  ⟨CallRequest.restores, LogFilter.restores, BlockHeader.restores, Receipt.restores,
    LogEntry.restores⟩

end ChainAccess
