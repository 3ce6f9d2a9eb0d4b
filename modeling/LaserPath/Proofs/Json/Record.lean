import LaserPath.Json.Record
import Mathlib.Data.List.Forall2
import Mathlib.Data.List.Perm.Basic

/-!
# Records as they are written

A record is written as an object. Its fields stand in any order, members that are no fields may
stand between them, and a field whose value may be null may be left out. Reading such an object
finds every field with its value.

## Main definitions

* `Json.Field` — a field of a record with what is asked of its value.
* `Json.Writes`, `Json.IsRecord` — the members, and the objects, that write fields.
* `Json.IsNumber`, `Json.IsOptional`, `Json.IsList` — values that write a number, an optional
  value and a list.
* `Json.Fields.Hold` — what is found of fields.

## Main statements

* `Json.IsRecord.exists_fields?` — what is found of the fields that an object writes.
* `Json.isRecord_of_writes` — the fields alone, in their order, are an object that writes them.
* `Json.Fields.Hold.required?`, `Json.Fields.Hold.optional?` — reading one of the fields.
-/

namespace LaserPath.Json

/-- A field of a record, and what is asked of its value. -/
structure Field where
  name : String
  Value : Json → Prop

/-- The members are the fields in their order; a field that may be null may be left out. -/
inductive Writes : List Field → Fields → Prop where
  | nil : Writes [] []
  | written {f : Field} {value : Json} {fields : List Field} {members : Fields}
    (hv : f.Value value) (h : Writes fields members) :
    Writes (f :: fields) ((f.name, value) :: members)
  | leftOut {f : Field} {fields : List Field} {members : Fields}
    (hv : f.Value .null) (h : Writes fields members) : Writes (f :: fields) members

/-- The members of an object that are fields of the layout are the given fields, in any order. -/
def IsRecord (layout : Layout) (fields : List Field) (json : Json) : Prop :=
  ∃ members written, json = .object members ∧
    (members.filter fun m => layout.names.contains m.1).Perm written ∧ Writes fields written

/-- The value is a number, as it is or as a whole number that stands for it. -/
inductive IsNumber : Float → Json → Prop where
  | real {x : Float} (h : x.isFinite = true) : IsNumber x (.real x)
  | integer (n : Int) : IsNumber (Decimal.ofInt n).toFloat (.integer n)

/-- Nothing is null. -/
def IsOptional {α : Type} (P : α → Json → Prop) (value? : Option α) (json : Json) : Prop :=
  match value? with
  | none => json = .null
  | some value => P value json

/-- The items of an array are the values of a list in its order. -/
def IsList {α : Type} (P : α → Json → Prop) (values : List α) (json : Json) : Prop :=
  ∃ items, json = .array items ∧ List.Forall₂ P values items

/-- Every field is found with its value, or left out where null would do; nothing else is found. -/
structure Fields.Hold (known : Fields) (fields : List Field) : Prop where
  found : ∀ f ∈ fields, (∃ value, known.lookup f.name = some value ∧ f.Value value) ∨
    (known.lookup f.name = none ∧ f.Value .null)
  absent : ∀ name ∉ fields.map Field.name, known.lookup name = none

theorem lookup_cons_of_ne {name key : String} (h : name ≠ key) (value : Json) (rest : Fields) :
    ((key, value) :: rest).lookup name = rest.lookup name := by
  rw [List.lookup_cons, beq_false_of_ne h]

theorem lookup_eq_some_iff {members : Fields} (hn : (members.map Prod.fst).Nodup) {name : String}
    {value : Json} : members.lookup name = some value ↔ (name, value) ∈ members := by
  induction members with
  | nil => simp
  | cons m rest ih =>
    obtain ⟨key, first⟩ := m
    rw [List.map_cons, List.nodup_cons] at hn
    by_cases hk : name = key
    · subst hk
      have hrest : (name, value) ∉ rest := fun h => hn.1 (List.mem_map.2 ⟨_, h, rfl⟩)
      simp [hrest, eq_comm]
    · rw [lookup_cons_of_ne hk, ih hn.2]
      simp [hk]

/-- What is found does not depend on the order of the members. -/
theorem lookup_eq_of_perm {s t : Fields} (h : s.Perm t) (hn : (t.map Prod.fst).Nodup)
    (name : String) : s.lookup name = t.lookup name := by
  have hs : (s.map Prod.fst).Nodup := (h.map Prod.fst).nodup_iff.2 hn
  refine Option.ext fun value => ?_
  rw [lookup_eq_some_iff hs, lookup_eq_some_iff hn, h.mem_iff]

theorem lookup_eq_none {members : Fields} {name : String} (h : name ∉ members.map Prod.fst) :
    members.lookup name = none := by
  rw [List.lookup_eq_none_iff]
  intro m hm
  rw [bne_iff_ne]
  rintro rfl
  exact h (List.mem_map_of_mem hm)

/-- A field of a record is found among all members of the object. -/
theorem lookup_of_fields?_eq {layout : Layout} {members known : Fields} {name : String}
    (h : (Json.object members).fields? layout = some known) (hn : name ∈ layout.names) :
    known.lookup name = members.lookup name := by
  obtain ⟨-, hk⟩ := Option.ite_none_right_eq_some.1 h
  cases hk
  clear h
  induction members with
  | nil => rfl
  | cons m rest ih =>
    obtain ⟨key, value⟩ := m
    by_cases hk : name = key
    · subst hk
      rw [List.filter_cons, if_pos (List.contains_iff_mem.2 hn), List.lookup_cons_self,
        List.lookup_cons_self]
    · rw [lookup_cons_of_ne hk, ← ih, List.filter_cons]
      split
      · rw [lookup_cons_of_ne hk]
      · rfl

section

variable {fields more : List Field} {members others : Fields}

/-- The names of the members are among the names of the fields, in the same order. -/
theorem Writes.sublist (h : Writes fields members) :
    (members.map Prod.fst).Sublist (fields.map Field.name) := by
  induction h with
  | nil => exact .slnil
  | written _ _ ih => exact ih.cons_cons _
  | leftOut _ _ ih => exact ih.cons _

theorem Writes.lookup_eq_none (h : Writes fields members) {name : String}
    (hname : name ∉ fields.map Field.name) : members.lookup name = none :=
  Json.lookup_eq_none fun hm => hname (h.sublist.subset hm)

theorem Writes.append (h : Writes fields members) (h' : Writes more others) :
    Writes (fields ++ more) (members ++ others) := by
  induction h with
  | nil => exact h'
  | written hv _ ih => exact ih.written hv
  | leftOut hv _ ih => exact ih.leftOut hv

/-- An optional value writes its field, or leaves it out if there is none. -/
theorem writes_optional {α : Type} (name : String) {P : α → Json → Prop} {value? : Option α}
    {write : α → Json} (hv : ∀ value ∈ value?, P value (write value)) :
    Writes [⟨name, IsOptional P value?⟩] (value?.map fun value => (name, write value)).toList := by
  cases value? with
  | none => exact .leftOut rfl .nil
  | some value => exact .written (f := ⟨name, _⟩) (hv value rfl) .nil

/-- What is found of the members that write fields. -/
theorem Writes.hold (h : Writes fields members) (hn : (fields.map Field.name).Nodup) :
    members.Hold fields := by
  refine ⟨?_, fun _ => h.lookup_eq_none⟩
  induction h with
  | nil => simp
  | @written f value fields members hv h ih =>
    rw [List.map_cons, List.nodup_cons] at hn
    rintro g (_ | ⟨_, hg⟩)
    · exact .inl ⟨value, by simp, hv⟩
    · have hne : g.name ≠ f.name := fun he => hn.1 (he ▸ List.mem_map_of_mem hg)
      rw [lookup_cons_of_ne hne]
      exact ih hn.2 g hg
  | @leftOut f fields members hv h ih =>
    rw [List.map_cons, List.nodup_cons] at hn
    rintro g (_ | ⟨_, hg⟩)
    · exact .inr ⟨h.lookup_eq_none hn.1, hv⟩
    · exact ih hn.2 g hg

/-- The fields alone, in their order, are an object that writes them. -/
theorem isRecord_of_writes {layout : Layout} (h : Writes fields members)
    (hl : fields.map Field.name ⊆ layout.names) : IsRecord layout fields (.object members) := by
  refine ⟨members, members, rfl, ?_, h⟩
  rw [List.filter_eq_self.2]
  intro m hm
  exact List.contains_iff_mem.2 (hl (h.sublist.subset (List.mem_map_of_mem hm)))

/-- What is found of the fields that an object writes. -/
theorem IsRecord.exists_fields? {layout : Layout} {json : Json} (h : IsRecord layout fields json)
    (hn : (fields.map Field.name).Nodup) :
    ∃ known, json.fields? layout = some known ∧ known.Hold fields := by
  obtain ⟨members, written, rfl, hp, hw⟩ := h
  have hwritten : (written.map Prod.fst).Nodup := hn.sublist hw.sublist
  have hold := hw.hold hn
  refine ⟨_, if_pos ((hp.map Prod.fst).nodup_iff.2 hwritten), ?_, ?_⟩
  · intro f hf
    rw [lookup_eq_of_perm hp hwritten]
    exact hold.found f hf
  · intro name hname
    rw [lookup_eq_of_perm hp hwritten]
    exact hold.absent name hname

end

theorem IsNumber.float? {x : Float} {json : Json} (h : IsNumber x json) :
    json.float? = some x := by
  cases h <;> rfl

theorem isNumber_ofFloat {x : Float} (h : x.isFinite = true) : IsNumber x (.ofFloat x) := by
  rw [ofFloat, if_pos h]
  exact .real h

namespace Fields.Hold

variable {α : Type} {known : Fields} {fields : List Field} {a : α}

/-- A field that has to be written is read as what its value stands for. -/
theorem required? (h : known.Hold fields) (name : String) (value? : Json → Option α)
    (P : Json → Prop) (hf : ⟨name, P⟩ ∈ fields) (hv : ∀ json, P json → value? json = some a)
    (hnull : value? .null = none) : known.required? name value? = some a := by
  obtain ⟨json, hk, hp⟩ | ⟨-, hp⟩ := h.found _ hf
  · rw [Fields.required?, hk]
    exact hv json hp
  · rw [hv _ hp] at hnull
    cases hnull

/-- A field with a default is read as what its value stands for, if null stands for the default
where it stands for anything. -/
theorem optional? (h : known.Hold fields) (name : String) (value? : Json → Option α)
    (default : α) (P : Json → Prop) (hf : ⟨name, P⟩ ∈ fields)
    (hv : ∀ json, P json → value? json = some a)
    (hnull : ∀ b, value? .null = some b → b = default) :
    known.optional? name value? default = some a := by
  obtain ⟨json, hk, hp⟩ | ⟨hk, hp⟩ := h.found _ hf
  · rw [Fields.optional?, hk]
    exact hv json hp
  · rw [Fields.optional?, hk, hnull a (hv _ hp)]

theorem required?_float (h : known.Hold fields) (name : String) (x : Float)
    (hf : ⟨name, IsNumber x⟩ ∈ fields) : known.required? name Json.float? = some x :=
  h.required? name Json.float? (IsNumber x) hf (fun _ hx => hx.float?) rfl

theorem optional?_float (h : known.Hold fields) (name : String) (x default : Float)
    (hf : ⟨name, IsNumber x⟩ ∈ fields) : known.optional? name Json.float? default = some x :=
  h.optional? name Json.float? default (IsNumber x) hf (fun _ hx => hx.float?) nofun

theorem optional?_of_not_mem (h : known.Hold fields) (name : String)
    (value? : Json → Option α) (default : α) (hname : name ∉ fields.map Field.name) :
    known.optional? name value? default = some default := by
  rw [Fields.optional?, h.absent name hname]

end Fields.Hold

section

variable {α β : Type} {P : α → Json → Prop} {value? : Json → Option β} {json : Json}

theorem IsOptional.orNull? {o : Option α} {value? : Json → Option α}
    (hv : ∀ a ∈ o, ∀ json, P a json → value? json = some a) (hnull : value? .null = none)
    (h : IsOptional P o json) : json.orNull? value? = some o := by
  cases o with
  | none =>
    cases h
    rfl
  | some a =>
    have ha := hv a rfl json h
    unfold Json.orNull?
    split
    · rw [hnull] at ha
      cases ha
    · rw [ha]
      rfl

theorem IsList.list?_map {l : List α} (f : α → β)
    (hv : ∀ a ∈ l, ∀ json, P a json → value? json = some (f a)) (h : IsList P l json) :
    json.list? value? = some (l.map f) := by
  obtain ⟨items, rfl, hf⟩ := h
  change items.mapM value? = some (l.map f)
  induction hf with
  | nil => rfl
  | cons ha _ ih =>
    rw [List.forall_mem_cons] at hv
    rw [List.mapM_cons, hv.1 _ ha, ih hv.2]
    rfl

theorem IsList.list? {l : List α} {value? : Json → Option α}
    (hv : ∀ a ∈ l, ∀ json, P a json → value? json = some a) (h : IsList P l json) :
    json.list? value? = some l := by
  simpa using h.list?_map id hv

theorem isList_map {l : List α} {write : α → Json} (h : ∀ a ∈ l, P a (write a)) :
    IsList P l (.array (l.map write)) := by
  refine ⟨_, rfl, ?_⟩
  rw [List.forall₂_map_right_iff, List.forall₂_same]
  exact h

end

end LaserPath.Json
