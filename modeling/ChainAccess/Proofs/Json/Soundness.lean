import ChainAccess.Proofs.Json.Leaves
import Mathlib.Tactic.Common
-- A content that is read whole shows its value by its form: a string that was read stands
-- for its text, lists and objects are their parts with commas between them, and whatever
-- was passed over is a value too.

namespace ChainAccess.Json

variable {stack : List Frame} {cs : List Char} {d v : Json} {f : Frame}

/-! ## What a text shows -/

/-- Neither a string nor made of parts. -/
def Bare : Json → Prop
  | .str _ | .arr _ | .obj _ => False
  | _ => True

/-- What the form of a text shows of a value: what a string says, and the parts of a list or
an object. Of anything else, and of what was passed over, it is a value at all. -/
inductive Shows : List Char → Json → Prop
  | bare {cs : List Char} {v : Json} : IsValue cs → v.Bare → Shows cs v
  | string {cs : List Char} {s : String} : Quotes s cs → Shows cs (.str s)
  | emptyList {ws : List Char} : Blank ws → Shows ('[' :: (ws ++ [']'])) (.arr [])
  | list {items : List (Json × Padded)} : items ≠ [] → (∀ i ∈ items, Shows i.2.core i.1) →
      Shows ('[' :: (joined (items.map fun i => i.2.text) ++ [']'])) (.arr (items.map Prod.fst))
  | emptyObject {ws : List Char} : Blank ws → Shows ('\x7b' :: (ws ++ ['\x7d'])) (.obj [])
  | object {members : List ((String × Json) × Member)} : members ≠ [] →
      (∀ m ∈ members, Quotes m.1.1 m.2.name.core) →
      (∀ m ∈ members, Shows m.2.value.core m.1.2) →
      Shows ('\x7b' :: (joined (members.map fun m => m.2.text) ++ ['\x7d']))
        (.obj (members.map Prod.fst))

theorem Spells.isBody {bs : List UInt8} (h : Spells cs bs) : IsBody cs := by
  induction h with
  | nil => exact .nil
  | plain hc _ ih => exact .plain hc ih
  | escape hescape _ ih => exact .escape hescape ih
  | code hcode _ _ _ ih => exact .code hcode ih
  | pair hcode _ hcode' _ _ ih => exact .code hcode (.code hcode' ih)

theorem Quotes.isString {s : String} (h : Quotes s cs) : IsString cs := by
  obtain ⟨hspells⟩ := h
  exact .body hspells.isBody

section

variable {α : Type}

theorem isValue_list {items : List (α × Padded)} (hne : items ≠ [])
    (hitems : ∀ i ∈ items, IsValue i.2.core) :
    IsValue ('[' :: (joined (items.map fun i => i.2.text) ++ [']'])) := by
  have hlist : IsValue ('[' :: (joined ((items.map Prod.snd).map Padded.text) ++ [']'])) := by
    refine .list (by simpa using hne) fun p hp => ?_
    obtain ⟨i, hi, rfl⟩ := List.mem_map.mp hp
    exact hitems i hi
  rwa [List.map_map] at hlist

theorem isValue_object {members : List (α × Member)} (hne : members ≠ [])
    (hnames : ∀ m ∈ members, IsString m.2.name.core)
    (hvalues : ∀ m ∈ members, IsValue m.2.value.core) :
    IsValue ('\x7b' :: (joined (members.map fun m => m.2.text) ++ ['\x7d'])) := by
  have hobject :
      IsValue ('\x7b' :: (joined ((members.map Prod.snd).map Member.text) ++ ['\x7d'])) := by
    refine .object (by simpa using hne) (fun m hm => ?_) fun m hm => ?_
    · obtain ⟨p, hp, rfl⟩ := List.mem_map.mp hm
      exact hnames p hp
    · obtain ⟨p, hp, rfl⟩ := List.mem_map.mp hm
      exact hvalues p hp
  rwa [List.map_map] at hobject

end

/-- What shows a value is one to be passed over. -/
theorem Shows.isValue (h : Shows cs v) : IsValue cs := by
  induction h with
  | bare hvalue _ => exact hvalue
  | string hquotes => exact .string hquotes.isString
  | emptyList hws => exact .emptyList hws
  | list hne _ ih => exact isValue_list hne ih
  | emptyObject hws => exact .emptyObject hws
  | object hne hnames _ ih =>
    exact isValue_object hne (fun m hm => (hnames m hm).isString) ih

theorem shows_number (h : IsNumber cs) (k : Number) : Shows cs (.num k) :=
  .bare (.number h) trivial

theorem shows_string {t : Option String} (hbody : IsBody cs)
    (hspells : ∀ s, t = some s → Spells cs (Utf8.encode s)) :
    Shows ('"' :: (cs ++ ['"'])) (t.elim (.broken .null) .str) := by
  cases t with
  | none => exact .bare (.string (.body hbody)) trivial
  | some s => exact .string (.body (hspells s rfl))

theorem foldl_add_passedList (items : List Json) :
    items.foldl (fun f v => f.add v) Frame.passedList = .passedList := by
  induction items with
  | nil => rfl
  | cons v rest ih => exact ih

theorem foldl_addMember_passedRecord (seen : Json) (members : List (Option String × Json)) :
    members.foldl Frame.addMember (.passedRecord seen false) = .passedRecord seen false := by
  induction members with
  | nil => rfl
  | cons m rest ih =>
    obtain ⟨_ | k, v⟩ := m <;> exact ih

/-- An object with a name that is no text is passed over. -/
theorem exists_passed {members : List (Option String × Json)} (h : ∃ m ∈ members, m.1 = none)
    (done : List (String × Json)) :
    ∃ seen, (members.foldl Frame.addMember (.record done none)).whole = .broken seen := by
  induction members generalizing done with
  | nil => simp at h
  | cons m rest ih =>
    obtain ⟨_ | k, v⟩ := m
    · have hpassed : (Frame.record done none).addMember (none, v) =
          .passedRecord (.obj done.reverse) false := rfl
      refine ⟨.obj done.reverse, ?_⟩
      rw [List.foldl_cons, hpassed, foldl_addMember_passedRecord]
      rfl
    · exact ih (by simpa using h) ((k, v) :: done)

/-- Members whose names are all texts. -/
theorem exists_named {members : List ((Option String × Json) × Member)}
    (h : ∀ m ∈ members, m.1.1 ≠ none) :
    ∃ named : List ((String × Json) × Member),
      members = named.map fun m => ((some m.1.1, m.1.2), m.2) := by
  induction members with
  | nil => exact ⟨[], rfl⟩
  | cons m rest ih =>
    obtain ⟨named, rfl⟩ := ih fun x hx => h x (List.mem_cons_of_mem m hx)
    obtain ⟨⟨_ | k, v⟩, m⟩ := m
    · exact absurd rfl (h _ List.mem_cons_self)
    · exact ⟨((k, v), m) :: named, rfl⟩

theorem shows_emptyList {ws : List Char} (hws : Blank ws) (n : Nat) :
    Shows ('[' :: (ws ++ [']'])) (Frame.openedAt n (.list [])).whole := by
  unfold Frame.openedAt
  split
  · exact .emptyList hws
  · exact .bare (.emptyList hws) trivial

theorem shows_list {items : List (Json × Padded)} (hne : items ≠ [])
    (hitems : ∀ i ∈ items, Shows i.2.core i.1) (n : Nat) :
    Shows ('[' :: (joined (items.map fun i => i.2.text) ++ [']']))
      ((items.map Prod.fst).foldl (fun f v => f.add v) (Frame.openedAt n (.list []))).whole := by
  unfold Frame.openedAt
  split
  · rw [whole_foldl_add]
    exact .list hne hitems
  · have hpassed : (Frame.list []).passed = .passedList := rfl
    rw [hpassed, foldl_add_passedList]
    exact .bare (Shows.list hne hitems).isValue trivial

theorem shows_emptyObject {ws : List Char} (hws : Blank ws) (n : Nat) :
    Shows ('\x7b' :: (ws ++ ['\x7d'])) (Frame.openedAt n (.record [] none)).whole := by
  unfold Frame.openedAt
  split
  · exact .emptyObject hws
  · exact .bare (.emptyObject hws) trivial

theorem shows_object {members : List ((Option String × Json) × Member)} (hne : members ≠ [])
    (hstrings : ∀ m ∈ members, IsString m.2.name.core)
    (hnames : ∀ m ∈ members, ∀ k, m.1.1 = some k → Quotes k m.2.name.core)
    (hvalues : ∀ m ∈ members, Shows m.2.value.core m.1.2) (n : Nat) :
    Shows ('\x7b' :: (joined (members.map fun m => m.2.text) ++ ['\x7d']))
      ((members.map Prod.fst).foldl Frame.addMember
        (Frame.openedAt n (.record [] none))).whole := by
  have hvalue := isValue_object hne hstrings fun m hm => (hvalues m hm).isValue
  unfold Frame.openedAt
  split
  · by_cases hnameless : ∃ m ∈ members.map Prod.fst, m.1 = none
    · obtain ⟨seen, hseen⟩ := exists_passed hnameless []
      rw [hseen]
      exact .bare hvalue trivial
    · have hsome : ∀ m ∈ members, m.1.1 ≠ none := fun m hm hnone =>
        hnameless ⟨m.1, List.mem_map_of_mem hm, hnone⟩
      obtain ⟨named, rfl⟩ := exists_named hsome
      have hobject : Shows _ (.obj (named.map Prod.fst)) := .object (by simpa using hne)
        (fun m hm => hnames _ (List.mem_map_of_mem hm) m.1.1 rfl)
        fun m hm => hvalues _ (List.mem_map_of_mem hm)
      have hwhole := whole_foldl_addMember [] (named.map Prod.fst)
      simp only [List.map_map, List.reverse_nil, List.nil_append, Function.comp_def] at hwhole ⊢
      rw [hwhole]
      exact hobject
  · have hpassed : (Frame.record [] none).passed = .passedRecord .null false := rfl
    rw [hpassed, foldl_addMember_passedRecord]
    exact .bare hvalue trivial

/-! ## What is read shows -/

/-- The text begins with a value and is read to its end behind it. -/
def Begins (stack : List Frame) (cs : List Char) (d : Json) : Prop :=
  ∃ ws core rest v, Blank ws ∧ cs = ws ++ (core ++ rest) ∧ Shows core v ∧
    Reads ⟨.after v, stack⟩ rest d

/-- The text begins with the end of the list or object that is open. -/
def Closes (stack : List Frame) (cs : List Char) (d : Json) : Prop :=
  ∃ f outer ws c rest v, stack = f :: outer ∧ Blank ws ∧ cs = ws ++ c :: rest ∧
    f.ended? c = some v ∧ Reads ⟨.after v, outer⟩ rest d

/-- What stands between the brackets of a list. -/
def IsInner (parts : List (List Char)) (mayClose : Bool) (inner : List Char) : Prop :=
  (parts = [] ∧ mayClose = true ∧ Blank inner) ∨ (parts ≠ [] ∧ inner = joined parts)

theorem Frame.IsList.eq_of_ended? {c : Char} (hf : f.IsList) (h : f.ended? c = some v) :
    c = ']' ∧ v = f.whole := by
  unfold Frame.ended? at h
  split at h
  · split at h
    · next hc => exact ⟨hc, (Option.some.inj h).symm⟩
    · cases h
  · exact hf.elim
  · split at h
    · next hc => exact ⟨hc, (Option.some.inj h).symm⟩
    · cases h
  · exact hf.elim
  · cases h

theorem Frame.IsRecord.eq_of_ended? {c : Char} (hf : f.IsRecord) (h : f.ended? c = some v) :
    c = '\x7d' ∧ v = f.whole := by
  unfold Frame.ended? at h
  split at h
  · exact hf.elim
  · split at h
    · next hc => exact ⟨hc, (Option.some.inj h).symm⟩
    · cases h
  · exact hf.elim
  · split at h
    · next hc => exact ⟨hc, (Option.some.inj h).symm⟩
    · cases h
  · cases h

/-- Behind a value there is a comma, or the end of what it stands in. -/
theorem Reads.exists_next (h : Reads ⟨.after v, f :: stack⟩ cs d) :
    ∃ ws c rest, Blank ws ∧ cs = ws ++ c :: rest ∧
      ((c = ',' ∧ Reads ⟨(f.add v).next, f.add v :: stack⟩ rest d) ∨
        ∃ w, (f.add v).ended? c = some w ∧ Reads ⟨.after w, stack⟩ rest d) := by
  obtain ⟨ws, c, rest, rfl, hws, hc, hread⟩ := h.exists_first
    (fun c hc => afterValue_of_blank hc v _) (not_reads_of_salvage (some v) rfl)
  refine ⟨ws, c, rest, hws, rfl, ?_⟩
  have hnext : Reads (Reader.afterValue v (f :: stack) c) rest d := hread
  unfold Reader.afterValue at hnext
  rw [hc, if_neg Bool.false_ne_true] at hnext
  dsimp only at hnext
  split at hnext
  · next hcomma => exact .inl ⟨hcomma, hnext⟩
  · cases hended : (f.add v).ended? c with
    | none =>
      rw [hended] at hnext
      exact absurd hnext (not_reads_failed _)
    | some w =>
      rw [hended] at hnext
      exact .inr ⟨w, rfl, hnext⟩

theorem Reads.exists_ended {mayClose : Bool} {c : Char} {mode : Mode}
    (h : Reads (Reader.endEmpty ⟨mode, stack⟩ mayClose c) cs d) :
    mayClose = true ∧ ∃ f outer w, stack = f :: outer ∧ f.ended? c = some w ∧
      Reads ⟨.after w, outer⟩ cs d := by
  unfold Reader.endEmpty at h
  split at h
  · next f outer hstack =>
    cases hended : f.ended? c with
    | none =>
      rw [hended] at h
      exact absurd h (not_reads_failed _)
    | some w =>
      rw [hended] at h
      exact ⟨rfl, f, outer, w, hstack, hended, h⟩
  · exact absurd h (not_reads_failed _)

/-- Where a value may begin, one does, or the list ends that is open. -/
def BeginsOrCloses (cs : List Char) : Prop :=
  ∀ {stack : List Frame} {mayClose : Bool} {d : Json}, Reads ⟨.value mayClose, stack⟩ cs d →
    Begins stack cs d ∨ (mayClose = true ∧ Closes stack cs d)

/-- The items of a list up to its end. -/
theorem Reads.exists_items {mayClose : Bool} (h : Reads ⟨.value mayClose, f :: stack⟩ cs d)
    (hf : f.IsList) (hvalue : ∀ ds : List Char, ds.length ≤ cs.length → BeginsOrCloses ds) :
    ∃ (items : List (Json × Padded)) (inner rest : List Char), cs = inner ++ ']' :: rest ∧
      IsInner (items.map fun i => i.2.text) mayClose inner ∧
      (∀ i ∈ items, Shows i.2.core i.1) ∧
      Reads ⟨.after ((items.map Prod.fst).foldl (fun f v => f.add v) f).whole, stack⟩ rest d := by
  induction hn : cs.length using Nat.strongRecOn generalizing f cs mayClose with
  | ind n ih =>
    subst hn
    rcases hvalue cs (Nat.le_refl _) h with hbegins | ⟨hmay, hcloses⟩
    · obtain ⟨ws, core, rest, v, hws, rfl, hshows, hafter⟩ := hbegins
      obtain ⟨ws', c, rest', hws', rfl, hnext⟩ := hafter.exists_next
      let p : Padded := ⟨ws, core, ws', hws, hws'⟩
      have hadd := hf.add v
      rcases hnext with ⟨rfl, hmore⟩ | ⟨w, hended, hdone⟩
      · rw [hadd.next_eq] at hmore
        have hshort : rest'.length < (ws ++ (core ++ (ws' ++ ',' :: rest'))).length := by
          simp only [List.length_append, List.length_cons]
          omega
        obtain ⟨items, inner, rest'', rfl, hinner, hitems, hread⟩ := ih _ hshort hmore hadd
          (fun ds hds => hvalue ds (Nat.le_trans hds (Nat.le_of_lt hshort))) rfl
        rcases hinner with ⟨-, hfalse, -⟩ | ⟨hne, rfl⟩
        · cases hfalse
        · refine ⟨(v, p) :: items, joined (p.text :: items.map fun i => i.2.text), rest'', ?_,
            .inr ⟨by simp, rfl⟩, List.forall_mem_cons.mpr ⟨hshows, hitems⟩, hread⟩
          obtain ⟨u, us, hus⟩ := List.exists_cons_of_ne_nil hne
          rw [hus, joined_cons_cons]
          simp [p, Padded.text]
      · obtain ⟨rfl, rfl⟩ := hadd.eq_of_ended? hended
        refine ⟨[(v, p)], p.text, rest', by simp [p, Padded.text],
          .inr ⟨by simp, (joined_singleton _).symm⟩, by simpa using hshows, hdone⟩
    · obtain ⟨_, _, ws, c, rest, v, heq, hws, rfl, hended, hread⟩ := hcloses
      cases heq
      obtain ⟨rfl, rfl⟩ := hf.eq_of_ended? hended
      exact ⟨[], ws, rest, rfl, .inl ⟨rfl, hmay, hws⟩, by simp, hread⟩

/-- A name and the colon behind it, or the end of the object. -/
theorem Reads.exists_name {mayClose : Bool} (h : Reads ⟨.name mayClose, f :: stack⟩ cs d) :
    (∃ (p : Padded) (t : Option String) (rest : List Char), cs = p.text ++ ':' :: rest ∧
      IsString p.core ∧ (∀ k, t = some k → Quotes k p.core) ∧
      Reads ⟨.value false, f.withName t :: stack⟩ rest d) ∨
    (mayClose = true ∧ Closes (f :: stack) cs d) := by
  obtain ⟨ws, c, rest, rfl, hws, hc, hfirst⟩ := h.exists_first
    (fun c hc => startName_of_blank hc _ mayClose) (not_reads_of_salvage none rfl)
  have hstart : Reads (Reader.startName ⟨.name mayClose, f :: stack⟩ mayClose c) rest d := hfirst
  unfold Reader.startName at hstart
  rw [hc, if_neg Bool.false_ne_true] at hstart
  split at hstart
  · next hquote =>
    obtain ⟨body, rest', t, hrest, hbody, hspells, hcolon⟩ :=
      hstart.exists_string gathered_nil.stands
    obtain rfl : rest = body ++ '"' :: rest' := hrest
    obtain ⟨ws', c', rest'', rfl, hws', hc', hsecond⟩ := hcolon.exists_first
      (fun c hc => if_pos hc) (not_reads_of_salvage none rfl)
    have hstep : Reads (if c' = ':' then ⟨.value false, f.withName t :: stack⟩
        else ⟨.failed none, f.withName t :: stack⟩) rest'' d := by
      simpa [Reader.endString, Reader.step, hc'] using hsecond
    split at hstep
    · next hcolon' =>
      refine .inl ⟨⟨ws, '"' :: (body ++ ['"']), ws', hws, hws'⟩, t, rest'', ?_, .body hbody,
        fun k hk => .body (hspells k hk), hstep⟩
      simp [Padded.text, hquote, hcolon']
    · exact absurd hstep (not_reads_failed none)
  · obtain ⟨hmay, g, outer, w, heq, hended, hread⟩ := hstart.exists_ended
    exact .inr ⟨hmay, g, outer, ws, c, rest, w, heq, hws, rfl, hended, hread⟩

/-- The members of an object up to its end. -/
theorem Reads.exists_members {mayClose : Bool} (h : Reads ⟨.name mayClose, f :: stack⟩ cs d)
    (hf : f.IsRecord) (hvalue : ∀ ds : List Char, ds.length ≤ cs.length → BeginsOrCloses ds) :
    ∃ (members : List ((Option String × Json) × Member)) (inner rest : List Char),
      cs = inner ++ '\x7d' :: rest ∧ IsInner (members.map fun m => m.2.text) mayClose inner ∧
      (∀ m ∈ members, IsString m.2.name.core ∧ (∀ k, m.1.1 = some k → Quotes k m.2.name.core) ∧
        Shows m.2.value.core m.1.2) ∧
      Reads ⟨.after ((members.map Prod.fst).foldl Frame.addMember f).whole, stack⟩ rest d := by
  induction hn : cs.length using Nat.strongRecOn generalizing f cs mayClose with
  | ind n ih =>
    subst hn
    rcases h.exists_name with ⟨name, t, behind, rfl, hstring, hquotes, hbehind⟩ | ⟨hmay, hcloses⟩
    · have hbegins : Begins (f.withName t :: stack) behind d := by
        have hshort : behind.length ≤ (name.text ++ ':' :: behind).length := by
          simp only [List.length_append, List.length_cons]
          omega
        exact (hvalue behind hshort hbehind).resolve_right fun hcloses => nomatch hcloses.1
      obtain ⟨ws, core, rest, v, hws, rfl, hshows, hafter⟩ := hbegins
      obtain ⟨ws', c, rest', hws', rfl, hnext⟩ := hafter.exists_next
      let m : Member := ⟨name, ws, core, ws', hws, hws'⟩
      have hm : IsString m.name.core ∧ (∀ k, t = some k → Quotes k m.name.core) ∧
          Shows m.value.core v := ⟨hstring, hquotes, hshows⟩
      have hadd : ((f.withName t).add v).IsRecord := hf.addMember (t, v)
      rcases hnext with ⟨rfl, hmore⟩ | ⟨w, hended, hdone⟩
      · rw [hadd.next_eq] at hmore
        have hshort : rest'.length <
            (name.text ++ ':' :: (ws ++ (core ++ (ws' ++ ',' :: rest')))).length := by
          simp only [List.length_append, List.length_cons]
          omega
        obtain ⟨members, inner, rest'', rfl, hinner, hmembers, hread⟩ := ih _ hshort hmore hadd
          (fun ds hds => hvalue ds (Nat.le_trans hds (Nat.le_of_lt hshort))) rfl
        rcases hinner with ⟨-, hfalse, -⟩ | ⟨hne, rfl⟩
        · cases hfalse
        · refine ⟨((t, v), m) :: members, joined (m.text :: members.map fun m => m.2.text), rest'',
            ?_, .inr ⟨by simp, rfl⟩, List.forall_mem_cons.mpr ⟨hm, hmembers⟩, hread⟩
          obtain ⟨u, us, hus⟩ := List.exists_cons_of_ne_nil hne
          rw [hus, joined_cons_cons]
          simp [m, Member.text, Padded.text]
      · obtain ⟨rfl, rfl⟩ := hadd.eq_of_ended? hended
        refine ⟨[((t, v), m)], m.text, rest', by simp [m, Member.text, Padded.text],
          .inr ⟨by simp, (joined_singleton _).symm⟩, by simpa using hm, hdone⟩
    · obtain ⟨_, _, ws, c, rest, v, heq, hws, rfl, hended, hread⟩ := hcloses
      cases heq
      obtain ⟨rfl, rfl⟩ := hf.eq_of_ended? hended
      exact ⟨[], ws, rest, rfl, .inl ⟨rfl, hmay, hws⟩, by simp, hread⟩

/-- The character begins a value, and the text is read to its end behind it. -/
def Starts (stack : List Frame) (c : Char) (cs : List Char) (d : Json) : Prop :=
  ∃ core rest v, c :: cs = core ++ rest ∧ Shows core v ∧ Reads ⟨.after v, stack⟩ rest d

theorem Reads.starts_string (h : Reads ⟨.string false .text [], stack⟩ cs d) :
    Starts stack '"' cs d := by
  obtain ⟨body, rest, t, heq, hbody, hspells, hread⟩ := h.exists_string gathered_nil.stands
  obtain rfl : cs = body ++ '"' :: rest := heq
  exact ⟨'"' :: (body ++ ['"']), rest, _, by simp, shows_string hbody hspells, hread⟩

theorem Reads.starts_list {n : Nat}
    (h : Reads ⟨.value true, .openedAt n (.list []) :: stack⟩ cs d)
    (hvalue : ∀ ds : List Char, ds.length ≤ cs.length → BeginsOrCloses ds) :
    Starts stack '[' cs d := by
  obtain ⟨items, inner, rest, rfl, hinner, hitems, hread⟩ :=
    h.exists_items (isList_openedAt n) hvalue
  refine ⟨'[' :: (inner ++ [']']), rest, _, by simp, ?_, hread⟩
  rcases hinner with ⟨hnone, -, hws⟩ | ⟨hne, rfl⟩
  · obtain rfl := List.map_eq_nil_iff.mp hnone
    exact shows_emptyList hws n
  · exact shows_list (by simpa using hne) hitems n

theorem Reads.starts_object {n : Nat}
    (h : Reads ⟨.name true, .openedAt n (.record [] none) :: stack⟩ cs d)
    (hvalue : ∀ ds : List Char, ds.length ≤ cs.length → BeginsOrCloses ds) :
    Starts stack '\x7b' cs d := by
  obtain ⟨members, inner, rest, rfl, hinner, hmembers, hread⟩ :=
    h.exists_members (isRecord_openedAt n) hvalue
  refine ⟨'\x7b' :: (inner ++ ['\x7d']), rest, _, by simp, ?_, hread⟩
  rcases hinner with ⟨hnone, -, hws⟩ | ⟨hne, rfl⟩
  · obtain rfl := List.map_eq_nil_iff.mp hnone
    exact shows_emptyObject hws n
  · exact shows_object (by simpa using hne) (fun m hm => (hmembers m hm).1)
      (fun m hm => (hmembers m hm).2.1) (fun m hm => (hmembers m hm).2.2) n

theorem Reads.starts_word (word : String) {c k : Char} {ks : List Char}
    (h : Reads ⟨.word (k :: ks) v, stack⟩ cs d) (heq : word.toList = c :: k :: ks)
    (hmem : word ∈ ["null", "true", "false"]) (hbare : v.Bare) : Starts stack c cs d := by
  obtain ⟨rest, rfl, hrest⟩ := h.exists_word (by simp)
  exact ⟨c :: k :: ks, rest, v, rfl, .bare (heq ▸ .word hmem) hbare, hrest⟩

theorem Reads.starts_number {place : NumberPlace} {l : Number.Literal} {c : Char}
    (h : Reads ⟨.number place l, stack⟩ cs d)
    (hnumber : ∀ {tail}, More place tail → IsNumber (c :: tail)) : Starts stack c cs d := by
  obtain ⟨tail, rest, k, rfl, hmore, hread⟩ := h.exists_number
  exact ⟨c :: tail, rest, _, rfl, shows_number (hnumber hmore) k, hread⟩

/-- A character that begins a value, and what is read behind it. -/
theorem Reads.starts_or_ends {mayClose : Bool} {c : Char} (hc : isBlank c = false)
    (h : Reads (Reader.startValue ⟨.value mayClose, stack⟩ mayClose c) cs d)
    (hvalue : ∀ ds : List Char, ds.length ≤ cs.length → BeginsOrCloses ds) :
    Starts stack c cs d ∨
    (mayClose = true ∧ ∃ f outer w, stack = f :: outer ∧ f.ended? c = some w ∧
      Reads ⟨.after w, outer⟩ cs d) := by
  unfold Reader.startValue at h
  dsimp only at h
  rw [hc, if_neg Bool.false_ne_true] at h
  split_ifs at h with hquote hlist hobject ht hf hn hminus hzero hdigit
  · subst hquote
    exact .inl h.starts_string
  · subst hlist
    exact .inl (h.starts_list hvalue)
  · subst hobject
    exact .inl (h.starts_object hvalue)
  · subst ht
    exact .inl (h.starts_word "true" rfl (by simp) trivial)
  · subst hf
    exact .inl (h.starts_word "false" rfl (by simp) trivial)
  · subst hn
    exact .inl (h.starts_word "null" rfl (by simp) trivial)
  · subst hminus
    exact .inl (h.starts_number isNumber_of_minus)
  · subst hzero
    exact .inl (h.starts_number isNumber_of_zero)
  · exact .inl (h.starts_number (isNumber_of_digit hdigit hzero))
  · exact .inr h.exists_ended

/-- What is read where a value may begin, by induction on how much text there is. -/
theorem begins_or_closes (cs : List Char) : BeginsOrCloses cs := by
  induction hn : cs.length using Nat.strongRecOn generalizing cs with
  | ind n ih =>
    subst hn
    intro stack mayClose d h
    obtain ⟨ws, c, rest, rfl, hws, hc, hread⟩ := h.exists_first
      (fun c hc => startValue_of_blank hc _ mayClose)
      (not_reads_of_salvage none (by cases stack <;> rfl))
    have hshort : rest.length < (ws ++ c :: rest).length := by
      simp only [List.length_append, List.length_cons]
      omega
    have hstart := Reads.starts_or_ends hc hread fun ds hds =>
      ih _ (Nat.lt_of_le_of_lt hds hshort) ds rfl
    rcases hstart with hcore | ⟨hmay, f, outer, w, heq, hended, hafter⟩
    · obtain ⟨core, rest', v, heq, hshows, hafter⟩ := hcore
      exact .inl ⟨ws, core, rest', v, hws, by rw [heq], hshows, hafter⟩
    · exact .inr ⟨hmay, f, outer, ws, c, rest, w, heq, hws, rfl, hended, hafter⟩

/-- Behind the whole value there are blanks alone. -/
theorem Reads.blank_of_top (h : Reads ⟨.after v, []⟩ cs d) : Blank cs ∧ v = d := by
  induction cs with
  | nil => exact ⟨blank_nil, congrArg Document.value h.1⟩
  | cons c rest ih =>
    have hread : Reads (Reader.afterValue v [] c) rest d := h
    cases hc : isBlank c with
    | false =>
      rw [Reader.afterValue, hc, if_neg Bool.false_ne_true] at hread
      exact absurd hread not_reads_trailing
    | true =>
      rw [afterValue_of_blank hc] at hread
      obtain ⟨hrest, hvalue⟩ := ih hread
      exact ⟨(blank_singleton hc).append hrest, hvalue⟩

/-! ## The law -/

/-- A content that is read whole as a value, not given up anywhere on the way, shows it. -/
theorem exists_shows {bs : List UInt8} (h : readBytes bs = ⟨v, true⟩)
    (hwhole : ∀ seen, v ≠ .broken seen) :
    ∃ p : Padded, bs.map Utf8.letter = p.text ∧ Shows p.core v := by
  have hread : Reads ⟨.value false, []⟩ (bs.map Utf8.letter) v := ⟨h, hwhole⟩
  rcases begins_or_closes _ hread with hbegins | ⟨hfalse, -⟩
  · obtain ⟨ws, core, rest, w, hws, heq, hshows, hafter⟩ := hbegins
    obtain ⟨hrest, rfl⟩ := hafter.blank_of_top
    refine ⟨⟨ws, core, rest, hws, hrest⟩, ?_, hshows⟩
    rw [heq, Padded.text, List.append_assoc]
  · cases hfalse

end ChainAccess.Json
