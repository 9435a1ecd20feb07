import ChainAccess.Json.Record
import ChainAccess.Proofs.Json.Compact
import Mathlib.Data.List.Basic
import Mathlib.Data.List.Nodup
import Mathlib.Tactic.Common
-- What a reader of records sees of an object. Names that are no fields of an open
-- record are passed over wherever they stand, and the order of the members does not
-- matter to a record that can be read.

namespace ChainAccess.Json

/-! ## Known names -/

/-- Whether the shape has a field of the name. -/
def Shape.knows (s : Shape) (name : String) : Bool := s.fields.any (·.name == name)

/-- The members whose names the shape knows. -/
def Shape.own (s : Shape) (members : List (String × Json)) : List (String × Json) :=
  members.filter fun m => s.knows m.1

variable {α : Type} {s : Shape} {members : List (String × Json)} {k : String}

theorem Shape.find?_of_not_knows (h : s.knows k = false) :
    s.fields.find? (·.name == k) = none := by
  simpa [knows, List.find?_eq_none] using h

theorem Shape.exists_field (h : s.knows k = true) :
    ∃ f, s.fields.find? (·.name == k) = some f := by
  rw [← Option.isSome_iff_exists, List.find?_isSome]
  simpa [knows] using h

theorem Shape.knows_name {f : Field} (hf : f ∈ s.fields) : s.knows f.name = true :=
  List.any_eq_true.mpr ⟨f, hf, beq_self_eq_true _⟩

theorem Shape.own_cons_of_knows (h : s.knows k = true) (v : Json) :
    s.own ((k, v) :: members) = (k, v) :: s.own members := List.filter_cons_of_pos h

theorem Shape.own_cons_of_not_knows (h : s.knows k = false) (v : Json) :
    s.own ((k, v) :: members) = s.own members := List.filter_cons_of_neg (by simp [h])

/-- A member that the shape knows is found among all as among the known ones. -/
theorem Shape.find?_own (h : s.knows k = true) :
    (s.own members).find? (·.1 == k) = members.find? (·.1 == k) := by
  unfold own
  rw [List.find?_filter]
  congr 1
  funext m
  by_cases hm : m.1 = k
  · simp [hm, h]
  · simp [hm]

/-- Members of distinct names are found alike in any order. -/
theorem find?_of_perm {ms ms' : List (String × Json)} (hperm : ms.Perm ms')
    (hnodup : (ms.map (·.1)).Nodup) : ms.find? (·.1 == k) = ms'.find? (·.1 == k) := by
  induction hperm with
  | nil => rfl
  | cons m _ ih =>
    rw [List.find?_cons, List.find?_cons, ih (List.nodup_cons.mp hnodup).2]
  | swap m m' rest =>
    have hne : m'.1 ≠ m.1 := fun h => (List.nodup_cons.mp hnodup).1 (by simp [h])
    by_cases hm : m.1 = k
    · simp [hm, hm ▸ hne]
    · simp [List.find?_cons, hm]
  | trans hfirst _ ih ih' =>
    exact (ih hnodup).trans (ih' ((hfirst.map (·.1)).nodup_iff.mp hnodup))

/-! ## Scanning an open record -/

theorem Shape.scan_cons_of_not_knows (hopen : s.closed = false) (h : s.knows k = false)
    (seen : List String) (v : Json) : s.scan seen ((k, v) :: members) = s.scan seen members := by
  rw [scan, find?_of_not_knows h]
  simp [hopen]

/-- Members of other names leave no trace. -/
theorem Shape.scan_own (hopen : s.closed = false) (seen : List String) :
    s.scan seen (s.own members) = s.scan seen members := by
  induction members generalizing seen with
  | nil => rfl
  | cons m rest ih =>
    obtain ⟨k, v⟩ := m
    cases hk : s.knows k with
    | false => rw [own_cons_of_not_knows hk, scan_cons_of_not_knows hopen hk, ih]
    | true =>
      obtain ⟨f, hf⟩ := exists_field hk
      rw [own_cons_of_knows hk, scan, scan, hf]
      simp only [ih]

/-- No known name comes twice or has come before, and the value of each passes the check
of its field. -/
theorem Shape.scan_eq_ok_iff (hopen : s.closed = false) {seen : List String} :
    s.scan seen members = .ok () ↔
      ((s.own members).map (·.1)).Nodup ∧ (∀ m ∈ s.own members, m.1 ∉ seen) ∧
        ∀ m ∈ members, ∀ f, s.fields.find? (·.name == m.1) = some f → f.check m.2 = .ok () := by
  induction members generalizing seen with
  | nil => simp [scan, own]
  | cons m rest ih =>
    obtain ⟨k, v⟩ := m
    cases hk : s.knows k with
    | false =>
      rw [own_cons_of_not_knows hk, scan_cons_of_not_knows hopen hk, ih]
      simp [find?_of_not_knows hk]
    | true =>
      obtain ⟨f, hf⟩ := exists_field hk
      have hstep : s.scan seen ((k, v) :: rest) = .ok () ↔
          k ∉ seen ∧ f.check v = .ok () ∧ s.scan (k :: seen) rest = .ok () := by
        rw [scan, hf]
        by_cases hseen : k ∈ seen
        · simp [hseen]
        · cases hcheck : f.check v <;> simp [hseen, hcheck, bind, Except.bind]
      rw [hstep, ih, own_cons_of_knows hk]
      simp only [List.map_cons, List.nodup_cons, List.mem_map, List.mem_cons, not_or,
        forall_eq_or_imp, hf, Option.some.injEq, forall_eq', not_exists, not_and]
      constructor
      · rintro ⟨hseen, hcheck, hnodup, hnew, hchecks⟩
        exact ⟨⟨fun m hm => (hnew m hm).1, hnodup⟩, ⟨hseen, fun m hm => (hnew m hm).2⟩, hcheck,
          hchecks⟩
      · rintro ⟨⟨hfresh, hnodup⟩, ⟨hseen, hold⟩, hcheck, hchecks⟩
        exact ⟨hseen, hcheck, hnodup, fun m hm => ⟨hfresh m hm, hold m hm⟩, hchecks⟩

/-- The order of the members does not matter to a scan that finds no fault. -/
theorem Shape.scan_ok_of_perm (hopen : s.closed = false) {members' : List (String × Json)}
    (hperm : members'.Perm members) (h : s.scan [] members = .ok ()) :
    s.scan [] members' = .ok () := by
  rw [scan_eq_ok_iff hopen] at h ⊢
  obtain ⟨hnodup, -, hchecks⟩ := h
  refine ⟨?_, by simp, fun m hm => hchecks m (hperm.mem_iff.mp hm)⟩
  exact ((hperm.filter _).map _).nodup_iff.mpr hnodup

/-! ## Reading an open record -/

theorem Shape.absent?_congr {members' : List (String × Json)}
    (h : ∀ f ∈ s.fields, members'.any (·.1 == f.name) = members.any (·.1 == f.name)) :
    s.absent? members' = s.absent? members := by
  have hfilter :
      s.fields.filter (fun f => f.absence = .required && !(members'.any (·.1 == f.name))) =
        s.fields.filter fun f => f.absence = .required && !(members.any (·.1 == f.name)) :=
    List.filter_congr fun f hf => by rw [h f hf]
  unfold absent?
  rw [← List.head?_filter, ← List.head?_filter, hfilter]

theorem Shape.read_obj_eq_ok_iff {r : Record} :
    s.read (.obj members) = .ok r ↔
      s.scan [] members = .ok () ∧ s.absent? members = none ∧ r = members := by
  rw [read]
  cases s.scan [] members with
  | error e => simp [bind, Except.bind]
  | ok _ =>
    cases s.absent? members with
    | some name => simp [bind, Except.bind, throw, throwThe, MonadExceptOf.throw]
    | none => simp [bind, Except.bind, pure, Except.pure, eq_comm]

theorem Shape.any_own {f : Field} (hf : f ∈ s.fields) :
    (s.own members).any (·.1 == f.name) = members.any (·.1 == f.name) := by
  unfold own
  rw [List.any_filter]
  congr 1
  funext m
  by_cases hm : m.1 = f.name
  · simp [hm, knows_name hf]
  · simp [hm]

/-- Without the members of other names a record is read as with them. -/
theorem Shape.read_own (hopen : s.closed = false) (members : List (String × Json)) :
    s.read (.obj (s.own members)) = (s.read (.obj members)).map s.own := by
  rw [read, read, scan_own hopen, absent?_congr fun f hf => any_own hf]
  cases s.scan [] members with
  | error e => rfl
  | ok _ => cases s.absent? members <;> rfl

/-- The reader reads a record of the shape, and there it looks at the fields alone. -/
def Shape.Governs (s : Shape) (read : Read α) : Prop :=
  ∃ pick : Record → Except Fault α, (∀ v, read v = s.read v >>= pick) ∧
    ∀ r r' : Record, (∀ k, s.knows k = true → r.find? (·.1 == k) = r'.find? (·.1 == k)) →
      pick r = pick r'

variable {read : Read α}

/-- Names that are no fields are passed over, be the object read or refused. -/
theorem Shape.Governs.read_own (h : s.Governs read) (hopen : s.closed = false)
    (members : List (String × Json)) : read (.obj (s.own members)) = read (.obj members) := by
  obtain ⟨pick, hread, hpick⟩ := h
  have hsame : ∀ r : Record, pick (s.own r) = pick r := fun r =>
    hpick _ _ fun k hk => find?_own hk
  rw [hread, hread, Shape.read_own hopen]
  cases s.read (.obj members) with
  | error e => rfl
  | ok r => exact hsame r

/-- A record that can be read is read in any order of its members. -/
theorem Shape.Governs.read_of_perm (h : s.Governs read) (hopen : s.closed = false)
    {members' : List (String × Json)} (hperm : members'.Perm members) {a : α}
    (hread : read (.obj members) = .ok a) : read (.obj members') = .ok a := by
  obtain ⟨pick, hreads, hpick⟩ := h
  rw [hreads] at hread ⊢
  cases hrecord : s.read (.obj members) with
  | error e =>
    rw [hrecord] at hread
    cases hread
  | ok r =>
    rw [hrecord] at hread
    obtain ⟨hscan, habsent, rfl⟩ := read_obj_eq_ok_iff.mp hrecord
    have hrecord' : s.read (.obj members') = .ok members' := by
      refine read_obj_eq_ok_iff.mpr ⟨scan_ok_of_perm hopen hperm hscan, ?_, rfl⟩
      rw [absent?_congr fun f _ => hperm.any_eq, habsent]
    have hfound : ∀ k, s.knows k = true →
        members'.find? (·.1 == k) = r.find? (·.1 == k) := fun k hk => by
      have hown : (s.own r).find? (·.1 == k) = r.find? (·.1 == k) := find?_own hk
      rw [← find?_own hk, ← hown]
      refine (find?_of_perm (hperm.filter _).symm ?_).symm
      exact ((scan_eq_ok_iff hopen).mp hscan).1
    rw [hrecord']
    exact (hpick _ _ hfound).trans hread

/-! ## Steps -/

@[simp]
theorem ok_bind {ε α β : Type} (a : α) (k : α → Except ε β) : (Except.ok a >>= k) = k a := rfl

@[simp]
theorem ok_map {ε α β : Type} (f : α → β) (a : α) :
    (Except.ok a : Except ε α).map f = .ok (f a) := rfl

@[simp]
theorem pure_eq_ok {ε α : Type} (a : α) : (pure a : Except ε α) = .ok a := rfl

/-- A step before the last has a value. -/
theorem exists_of_bind {ε α β : Type} {r : Except ε α} {k : α → Except ε β} {b : β}
    (h : r >>= k = .ok b) : ∃ a, r = .ok a ∧ k a = .ok b := by
  cases r with
  | error e => cases h
  | ok a => exact ⟨a, rfl, h⟩

/-- The value of a field with a default is what was read, or the default. -/
theorem Record.getD_cases {r : Record} {name : String} {default a : α}
    (h : r.getD name read default = .ok a) : a = default ∨ ∃ v, read v = .ok a := by
  unfold getD at h
  split at h
  · exact Or.inr ⟨_, h⟩
  · cases h
    exact Or.inl rfl

/-! ## Scalars and lists -/

@[simp]
theorem readString_str (t : String) : readString (.str t) = .ok t := rfl

@[simp]
theorem readUInt64_ofUInt64 (n : UInt64) : readUInt64 (ofUInt64 n) = .ok n := rfl

@[simp]
theorem readUInt32_ofUInt64 (n : UInt32) : readUInt32 (ofUInt64 n.toUInt64) = .ok n := by
  simp [readUInt32, ofUInt64, n.toNat_lt_size]

/-- A list is read back when its items are. -/
theorem readList_map {write : α → Json} (h : ∀ a, read (write a) = .ok a) (as : List α) :
    readList read (.arr (as.map write)) = .ok as := by
  unfold readList
  dsimp only
  induction as with
  | nil => rfl
  | cons a rest ih =>
    rw [List.map_cons, readItems, h, ih]
    rfl

/-- What is not `null` is read as a value. -/
theorem readOption_of_read {v : Json} {a : α} (hvalue : v.isNull = false) (h : read v = .ok a) :
    readOption read v = .ok (some a) := by
  unfold readOption
  cases v with
  | null => cases hvalue
  | _ => simp [h, Except.map]

/-- An option is read back when its value is, which must not be written as `null`. -/
theorem readOption_ofOption {write : α → Json} (h : ∀ a, read (write a) = .ok a)
    (hvalue : ∀ a, (write a).isNull = false) (o : Option α) :
    readOption read (ofOption write o) = .ok o := by
  cases o with
  | none => rfl
  | some a => exact readOption_of_read (hvalue a) (h a)

theorem nests_ofOption {n : Nat} {write : α → Json} (h : ∀ a, Nests n (write a)) (o : Option α) :
    Nests n (ofOption write o) := by
  cases o with
  | none => exact .null
  | some a => exact h a

theorem nests_map {n : Nat} {write : α → Json} (h : ∀ a, Nests n (write a)) (as : List α) :
    Nests (n + 1) (.arr (as.map write)) :=
  .arr (by simpa using fun a _ => h a)

-- A record of known members is read by computing; so it is for closed records too.
attribute [simp] field nullableField defaultedField Shape.read Shape.scan Shape.absent?
  Record.get Record.getD Record.get?

/-! ## Writing and reading back -/

/-- The value of a document is read when nothing follows it. -/
theorem Document.as_clean (v : Json) : (⟨v, true⟩ : Document).as read = read v := by
  unfold Document.as
  cases read v <;> rfl

/-- What is written of a value is an object, and the value comes back from it: from the
object itself and from its text, in any order of the members and whatever other names
stand among them. Any object is read as it is read without those names. -/
structure Shape.Restores (s : Shape) (read : Read α) (write : α → Json) : Prop where
  read_write : ∀ a, read (write a) = .ok a
  read_text : ∀ a, (Json.read (write a).compact).as read = .ok a
  read_among : ∀ a, ∃ written, write a = .obj written ∧
    ∀ members, (s.own members).Perm written → read (.obj members) = .ok a
  read_own : ∀ members, read (.obj (s.own members)) = read (.obj members)

/-- To restore its values a reader has to look at the fields alone and to read what is
written. -/
theorem Shape.Governs.restores (h : s.Governs read) (hopen : s.closed = false)
    {write : α → List (String × Json)} {n : Nat} (hn : n ≤ maxOpen)
    (hnests : ∀ a, Nests n (.obj (write a))) (hread : ∀ a, read (.obj (write a)) = .ok a) :
    s.Restores read fun a => .obj (write a) where
  read_write := hread
  read_text a := by rw [read_compact (hnests a) hn, Document.as_clean, hread]
  read_among a := ⟨write a, rfl, fun members hperm => by
    rw [← h.read_own hopen]
    exact h.read_of_perm hopen hperm (hread a)⟩
  read_own := h.read_own hopen

end ChainAccess.Json
