import ChainAccess.Account.Keystore
import ChainAccess.Proofs.Json.Records
import ChainAccess.Proofs.Json.Soundness
import Mathlib.Tactic.Common
-- The headers of keystores. A content has an address for its header exactly when it is a
-- record by its form, with one member of that name which is a text. Of the other members
-- only the names are read: their values may be whatever has the form of a value.

namespace ChainAccess.Keystore

/-! ## Headers by their values -/

/-- The value is a record with the text as its only address: an object that has one member
of that name, or the list of its fields. -/
inductive HasAddress (field : String) : Json → Prop
  | object {members : List (String × Json)} :
      members.filter (·.1 = "address") = [("address", .str field)] →
      HasAddress field (.obj members)
  | list : HasAddress field (.arr [.str field])

/-- The shape of a header. -/
def header : Json.Shape := ⟨[Json.nullableField "address" Json.readString], false⟩

/-- Reads the address in a header. -/
def readAddress : Json.Read (Option String) := fun v => do
  let r ← header.read v
  r.get? "address" Json.readString

theorem header_knows_iff {name : String} : header.knows name = true ↔ name = "address" := by
  simp only [Json.Shape.knows, header, Json.nullableField, List.any_cons, List.any_nil,
    Bool.or_false, beq_iff_eq]
  exact eq_comm

theorem header_own (members : List (String × Json)) :
    header.own members = members.filter (·.1 = "address") :=
  List.filter_congr fun m _ => Bool.eq_iff_iff.mpr (by rw [header_knows_iff, decide_eq_true_eq])

theorem governs_readAddress : header.Governs readAddress := by
  refine ⟨fun r => r.get? "address" Json.readString, fun _ => rfl, fun r r' h => ?_⟩
  dsimp only
  unfold Json.Record.get? Json.Record.getD
  rw [h "address" (header_knows_iff.mpr rfl)]

/-- The only member decides alone, and so does the only item of a list. -/
theorem readAddress_single (v : Json) :
    readAddress (.obj [("address", v)]) = Json.readOption Json.readString v ∧
      readAddress (.arr [v]) = Json.readOption Json.readString v := by
  constructor
  · simp only [readAddress, header, Json.nullableField, Json.Shape.read, Json.Shape.scan]
    cases h : Json.readOption Json.readString v <;> simp [h, Except.map, bind, Except.bind]
  · simp only [readAddress, header, Json.nullableField, Json.Shape.read, Json.zipFields]
    cases h : Json.readOption Json.readString v <;> simp [h, Except.map, bind, Except.bind]

theorem readOption_eq_some_iff {v : Json} {field : String} :
    Json.readOption Json.readString v = .ok (some field) ↔ v = .str field := by
  cases v <;> simp [Json.readOption, Json.readString, Except.map]

/-- Of members that are all of the name, there must be one, and that a string. -/
theorem readAddress_obj_iff {members : List (String × Json)} {field : String}
    (hname : ∀ m ∈ members, m.1 = "address") :
    readAddress (.obj members) = .ok (some field) ↔ members = [("address", .str field)] := by
  match members with
  | [] => exact iff_of_false (fun h => nomatch h) (fun h => nomatch h)
  | [(name, v)] =>
    obtain rfl : name = "address" := hname (name, v) (by simp)
    rw [(readAddress_single v).1, readOption_eq_some_iff]
    simp
  | (name, v) :: (name', v') :: rest =>
    obtain rfl : name = "address" := hname (name, v) (by simp)
    obtain rfl : name' = "address" := hname (name', v') (by simp)
    refine iff_of_false (fun h => ?_) (by simp)
    -- the scan stops at the name that comes again
    obtain ⟨r, hr, -⟩ := Json.exists_of_bind h
    have hscan := (Json.Shape.read_obj_eq_ok_iff.mp hr).1
    have hnodup := ((Json.Shape.scan_eq_ok_iff rfl).mp hscan).1
    rw [header_own] at hnodup
    simp at hnodup

theorem readAddress_eq_some_iff {v : Json} {field : String} :
    readAddress v = .ok (some field) ↔ HasAddress field v := by
  cases v with
  | obj members =>
    have hown : readAddress (.obj members) = readAddress (.obj (header.own members)) :=
      (governs_readAddress.read_own rfl members).symm
    rw [hown, header_own, readAddress_obj_iff (by simp)]
    exact ⟨fun h => .object h, fun h => by cases h with | object h => exact h⟩
  | arr items =>
    match items with
    | [] => exact iff_of_false (fun h => nomatch h) (fun h => nomatch h)
    | [v] =>
      rw [(readAddress_single v).2, readOption_eq_some_iff]
      exact ⟨fun h => h ▸ .list, fun h => by cases h; rfl⟩
    | v :: w :: rest =>
      -- there is no field for the second item
      refine iff_of_false (fun h => ?_) (fun h => nomatch h)
      obtain ⟨r, hr, -⟩ := Json.exists_of_bind h
      obtain ⟨_, _, hr⟩ := Json.exists_of_bind hr
      obtain ⟨_, hrest, _⟩ := Json.exists_of_bind hr
      cases hrest
  | broken seen =>
    -- refused also when all that came before the break is in order
    refine iff_of_false (fun h => ?_) (fun h => nomatch h)
    obtain ⟨r, hr, -⟩ := Json.exists_of_bind h
    cases seen with
    | obj members =>
      obtain ⟨_, _, hr⟩ := Json.exists_of_bind hr
      cases hr
    | arr items =>
      obtain ⟨_, _, hr⟩ := Json.exists_of_bind hr
      cases hr
    | _ => cases hr
  | _ => exact iff_of_false (fun h => nomatch h) (fun h => nomatch h)

theorem addressMember?_eq_some {content : Bytes} {field : String} :
    addressMember? content = some field ↔
      (Json.readBytes content).clean = true ∧ HasAddress field (Json.readBytes content).value := by
  have hmember : addressMember? content =
      (((Json.readBytes content).as readAddress).toOption).join := rfl
  rw [hmember, ← readAddress_eq_some_iff, Json.Document.as]
  cases hread : readAddress (Json.readBytes content).value with
  | error e => exact iff_of_false (fun h => nomatch h) (fun h => nomatch h.2)
  | ok address =>
    cases hclean : (Json.readBytes content).clean with
    | false => exact iff_of_false (fun h => nomatch h) (fun h => nomatch h.1)
    | true => simp [Except.toOption]

/-! ## Headers by their form -/

/-- The member of an object is called otherwise, and its value is passed over. -/
def IsOther (m : Json.Member) : Prop :=
  (∃ k, k ≠ "address" ∧ Json.Quotes k m.name.core) ∧ Json.IsValue m.value.core

/-- A record that has the text as its address: an object with this one member of the name,
whatever the values of the others are, or a list with nothing else in it. -/
inductive HeaderText (field : String) : List Char → Prop
  | object {before after : List Json.Member} {own : Json.Member} :
      Json.Quotes "address" own.name.core → Json.Quotes field own.value.core →
      (∀ m ∈ before, IsOther m) → (∀ m ∈ after, IsOther m) →
      HeaderText field ('\x7b' ::
        (Json.joined ((before ++ own :: after).map Json.Member.text) ++ ['\x7d']))
  | list {item : Json.Padded} : Json.Quotes field item.core →
      HeaderText field ('[' :: (item.text ++ [']']))

/-- The content is such a record, with blanks around it. -/
def IsHeader (field : String) (content : Bytes) : Prop :=
  ∃ p : Json.Padded, HeaderText field p.core ∧ content.map Utf8.letter = p.text

variable {field : String} {v : Json} {cs : List Char}

/-- Other members are read as something, by their names. -/
theorem exists_others {members : List Json.Member} (h : ∀ m ∈ members, IsOther m) :
    ∃ others : List ((String × Json) × Json.Member), others.map Prod.snd = members ∧
      ∀ m ∈ others, m.1.1 ≠ "address" ∧ Json.Quotes m.1.1 m.2.name.core ∧
        Json.Leads 1 m.2.value.core m.1.2 := by
  have hread : ∀ m ∈ members, ∃ kv : String × Json, kv.1 ≠ "address" ∧
      Json.Quotes kv.1 m.name.core ∧ Json.Leads 1 m.value.core kv.2 := by
    intro m hm
    obtain ⟨⟨k, hne, hname⟩, hvalue⟩ := h m hm
    obtain ⟨v, hv⟩ := hvalue.exists_leads 1
    exact ⟨(k, v), hne, hname, hv⟩
  exact Json.exists_paired hread

theorem filter_others {others : List ((String × Json) × Json.Member)}
    (h : ∀ m ∈ others, m.1.1 ≠ "address") :
    (others.map Prod.fst).filter (·.1 = "address") = [] := by
  rw [List.filter_eq_nil_iff]
  intro m hm
  obtain ⟨k, hk, rfl⟩ := List.mem_map.mp hm
  simpa using h k hk

/-- A header is read as a record with the address. -/
theorem HeaderText.exists_leads (h : HeaderText field cs) :
    ∃ v, Json.Leads 0 cs v ∧ HasAddress field v := by
  cases h with
  | @object before after own hname hvalue hbefore hafter =>
    obtain ⟨front, rfl, hfront⟩ := exists_others hbefore
    obtain ⟨back, rfl, hback⟩ := exists_others hafter
    let members := front ++ (("address", Json.str field), own) :: back
    have hmembers : ∀ m ∈ members, Json.Quotes m.1.1 m.2.name.core ∧
        Json.Leads 1 m.2.value.core m.1.2 := by
      intro m hm
      rcases List.mem_append.mp hm with hm | hm
      · exact (hfront m hm).2
      · rcases List.mem_cons.mp hm with rfl | hm
        · exact ⟨hname, hvalue.leads⟩
        · exact (hback m hm).2
    have hleads := Json.leads_members (by decide) (by simp [members])
      (fun m hm => (hmembers m hm).1) fun m hm => (hmembers m hm).2
    have htexts : members.map (fun m => m.2.text) =
        (front.map Prod.snd ++ own :: back.map Prod.snd).map Json.Member.text := by
      simp [members, Function.comp_def]
    rw [htexts] at hleads
    refine ⟨_, hleads, .object ?_⟩
    rw [List.map_append, List.filter_append, List.map_cons, List.filter_cons_of_pos (by simp),
      filter_others fun m hm => (hfront m hm).1, filter_others fun m hm => (hback m hm).1]
    rfl
  | @list item hquotes =>
    have hleads := Json.leads_items (n := 0) (by decide)
      (List.cons_ne_nil (Json.str field, item) []) (by simpa using hquotes.leads)
    rw [List.map_singleton, Json.joined_singleton] at hleads
    exact ⟨_, hleads, .list⟩

theorem quotes_of_shows (h : Json.Shows cs (.str field)) : Json.Quotes field cs := by
  cases h with
  | bare _ hbare => exact hbare.elim
  | string hquotes => exact hquotes

theorem exists_members_of_shows {members : List (String × Json)}
    (h : Json.Shows cs (.obj members)) (hne : members ≠ []) :
    ∃ shown : List ((String × Json) × Json.Member), shown.map Prod.fst = members ∧
      cs = '\x7b' :: (Json.joined (shown.map fun m => m.2.text) ++ ['\x7d']) ∧
      ∀ m ∈ shown, Json.Quotes m.1.1 m.2.name.core ∧ Json.Shows m.2.value.core m.1.2 := by
  generalize hv : Json.obj members = w at h
  cases h with
  | bare _ hbare => exact (hv ▸ hbare : (Json.obj members).Bare).elim
  | string | emptyList | list => cases hv
  | emptyObject _ => exact absurd (Json.obj.inj hv) hne
  | @object shown _ hnames hvalues =>
    exact ⟨shown, (Json.obj.inj hv).symm, rfl, fun m hm => ⟨hnames m hm, hvalues m hm⟩⟩

theorem exists_item_of_shows (h : Json.Shows cs (.arr [v])) :
    ∃ item : Json.Padded, cs = '[' :: (item.text ++ [']']) ∧ Json.Shows item.core v := by
  generalize hw : Json.arr [v] = w at h
  cases h with
  | bare _ hbare => exact (hw ▸ hbare : (Json.arr [v]).Bare).elim
  | string | emptyList | emptyObject | object => cases hw
  | @list items _ hitems =>
    obtain ⟨i, rfl, rfl⟩ := List.map_eq_singleton_iff.mp (Json.arr.inj hw).symm
    exact ⟨i.2, by rw [List.map_singleton, Json.joined_singleton], hitems i List.mem_cons_self⟩

/-- The one member that is picked out, between the others. -/
theorem exists_own_of_filter {shown : List ((String × Json) × Json.Member)}
    (h : (shown.map Prod.fst).filter (·.1 = "address") = [("address", .str field)]) :
    ∃ front own back, shown = front ++ own :: back ∧ own.1 = ("address", .str field) ∧
      ∀ m, m ∈ front ∨ m ∈ back → m.1.1 ≠ "address" := by
  obtain ⟨_, _, hsplit, hfront, -, hback⟩ := List.filter_eq_cons_iff.mp h
  obtain ⟨front, _, rfl, rfl, hrest⟩ := List.map_eq_append_iff.mp hsplit
  obtain ⟨own, back, rfl, hown, rfl⟩ := List.map_eq_cons_iff.mp hrest
  refine ⟨front, own, back, rfl, hown, fun m hm => ?_⟩
  rcases hm with hm | hm
  · simpa using hfront m.1 (List.mem_map_of_mem hm)
  · simpa using List.filter_eq_nil_iff.mp hback m.1 (List.mem_map_of_mem hm)

/-- What shows a record with the address is a header. -/
theorem HasAddress.headerText (h : HasAddress field v) (hshows : Json.Shows cs v) :
    HeaderText field cs := by
  cases h with
  | @object members hfilter =>
    have hne : members ≠ [] := by
      rintro rfl
      cases hfilter
    obtain ⟨shown, rfl, rfl, hshown⟩ := exists_members_of_shows hshows hne
    obtain ⟨front, own, back, rfl, hown, hother⟩ := exists_own_of_filter hfilter
    have hothers : ∀ ms : List ((String × Json) × Json.Member), (∀ m ∈ ms, m ∈ front ∨ m ∈ back) →
        ∀ m ∈ ms.map Prod.snd, IsOther m := by
      intro ms hms m hm
      obtain ⟨k, hk, rfl⟩ := List.mem_map.mp hm
      obtain ⟨hname, hvalue⟩ := hshown k (by rcases hms k hk with hk | hk <;> simp [hk])
      exact ⟨⟨k.1.1, hother k (hms k hk), hname⟩, hvalue.isValue⟩
    obtain ⟨hname, hvalue⟩ := hshown own (by simp)
    rw [hown] at hname hvalue
    have hheader : HeaderText field ('\x7b' :: (Json.joined
        ((front.map Prod.snd ++ own.2 :: back.map Prod.snd).map Json.Member.text) ++
          ['\x7d'])) :=
      .object hname (quotes_of_shows hvalue) (hothers front fun _ => .inl)
        (hothers back fun _ => .inr)
    simpa [Function.comp_def] using hheader
  | list =>
    obtain ⟨item, rfl, hitem⟩ := exists_item_of_shows hshows
    exact .list (quotes_of_shows hitem)

theorem addressMember?_eq_some_iff {content : Bytes} :
    addressMember? content = some field ↔ IsHeader field content := by
  rw [addressMember?_eq_some]
  constructor
  · rintro ⟨hclean, haddress⟩
    have hread : Json.readBytes content = ⟨(Json.readBytes content).value, true⟩ := by
      rw [← hclean]
    have hwhole : ∀ seen, (Json.readBytes content).value ≠ .broken seen := by
      intro seen hseen
      rw [hseen] at haddress
      cases haddress
    obtain ⟨p, htext, hshows⟩ := Json.exists_shows hread hwhole
    exact ⟨p, haddress.headerText hshows, htext⟩
  · rintro ⟨p, hheader, htext⟩
    obtain ⟨v, hleads, haddress⟩ := hheader.exists_leads
    have hread : Json.readBytes content = ⟨v, true⟩ := by
      unfold Json.readBytes
      rw [htext]
      exact (hleads.padded [] false rfl).finish rfl
    rw [hread]
    exact ⟨rfl, haddress⟩

end ChainAccess.Keystore
