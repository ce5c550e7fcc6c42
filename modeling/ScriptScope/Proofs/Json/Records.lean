import Mathlib.Data.List.Forall2
import ScriptScope.Json.Record
import ScriptScope.Proofs.Json.Documents

/-!
# ScriptScope.Proofs.Json.Records

Values that are exchanged as JSON: what is written is read back, and what is read is such that it
can be written.

* `fields?_written`: the fields that are written are the fields that are read, those left out
  included.
* `Exchanged`: a writer and a reader that fit together, for the values within given bounds. Lists
  and options of such values are exchanged in turn.
* `Exchanged.roundTrips`: the same with documents in between.
-/

namespace ScriptScope
namespace Json

/-! ## Fields -/

/-- The field of a rule, unless it is left out. -/
def FieldRule.field (rule : FieldRule) (value : Option Json) : List (String × Json) :=
  (value.map fun value => (rule.name, value)).toList

/-- The fields of a record, in the order of the rules. -/
def written : List FieldRule → List (Option Json) → List (String × Json)
  | rule :: rules, value :: values => rule.field value ++ written rules values
  | _, _ => []

theorem FieldRule.name_of_mem_field {rule : FieldRule} {value : Option Json} :
    ∀ field ∈ rule.field value, field.1 = rule.name := by
  cases value <;> simp [FieldRule.field]

theorem name_of_mem_written {rules : List FieldRule} {values : List (Option Json)} :
    ∀ field ∈ written rules values, field.1 ∈ rules.map (·.name) := by
  fun_induction written rules values with
  | case1 rule rules value values ih =>
    intro field hfield
    rcases List.mem_append.1 hfield with hfield | hfield
    · exact List.mem_cons.2 (.inl (FieldRule.name_of_mem_field field hfield))
    · exact List.mem_cons_of_mem _ (ih field hfield)
  | case2 => simp

/-- The members of an object with these fields. -/
def membersOf (fields : List (String × Json)) : List (Option String × Json) :=
  fields.map fun (name, value) => (some name, value)

theorem filter_membersOf {fields : List (String × Json)} {name : String}
    (h : ∀ field ∈ fields, field.1 ≠ name) :
    (membersOf fields).filter (fun m => m.1 = some name) = [] := by
  rw [List.filter_eq_nil_iff]
  intro m hm
  obtain ⟨field, hfield, rfl⟩ := List.mem_map.1 hm
  simpa using h field hfield

/-- Where a rule lets its field be missing. -/
def FieldRule.Allows (rule : FieldRule) (value : Option Json) : Prop :=
  value = none → rule.absence ≠ .nowhere

/-- A field is found among others that have other names. -/
theorem member?_of_field {rule : FieldRule} {value : Option Json} (hvalue : rule.Allows value)
    {front back : List (String × Json)} (hfront : ∀ field ∈ front, field.1 ≠ rule.name)
    (hback : ∀ field ∈ back, field.1 ≠ rule.name) :
    member? (membersOf (front ++ (rule.field value ++ back))) rule = some value := by
  have hsplit : membersOf (front ++ (rule.field value ++ back)) =
      membersOf front ++ (membersOf (rule.field value) ++ membersOf back) := by
    simp [membersOf]
  rw [member?, hsplit, List.filter_append, List.filter_append, filter_membersOf hfront,
    filter_membersOf hback, List.append_nil, List.nil_append]
  cases value with
  | none => exact if_neg (hvalue rfl)
  | some value => simp [FieldRule.field, membersOf]

/-- The fields are found one after the other, with those that are found already in front. -/
theorem mapM_member?_written {rules : List FieldRule} {values : List (Option Json)}
    (hallows : List.Forall₂ FieldRule.Allows rules values)
    (hnames : (rules.map (·.name)).Nodup) {front : List (String × Json)}
    (hfront : ∀ field ∈ front, field.1 ∉ rules.map (·.name)) :
    rules.mapM (member? (membersOf (front ++ written rules values))) = some values := by
  induction hallows generalizing front with
  | nil => rfl
  | @cons rule value rules values hrule hrules ih =>
    obtain ⟨hnew, hnames⟩ := List.nodup_cons.1 hnames
    have hbefore : ∀ field ∈ front, field.1 ≠ rule.name := by
      intro field hfield heq
      exact hfront field hfield (List.mem_cons.2 (.inl heq))
    have hbehind : ∀ field ∈ written rules values, field.1 ≠ rule.name := by
      intro field hfield heq
      have hmem := name_of_mem_written field hfield
      rw [heq] at hmem
      exact hnew hmem
    have hfound : ∀ field ∈ front ++ rule.field value, field.1 ∉ rules.map (·.name) := by
      intro field hfield hmem
      rcases List.mem_append.1 hfield with hfield | hfield
      · exact hfront field hfield (List.mem_cons_of_mem _ hmem)
      · rw [FieldRule.name_of_mem_field field hfield] at hmem
        exact hnew hmem
    have hrest := ih hnames hfound
    rw [List.append_assoc] at hrest
    rw [written, List.mapM_cons, member?_of_field hrule hbefore hbehind, hrest]
    rfl

theorem fields?_written {rules : List FieldRule} {values : List (Option Json)}
    (hallows : List.Forall₂ FieldRule.Allows rules values)
    (hnames : (rules.map (·.name)).Nodup) :
    fields? rules (ofFields (written rules values)) = some values := by
  have hkeys : (membersOf (written rules values)).all (·.1.isSome) = true := by
    simp [membersOf]
  have hmembers : rules.mapM (member? (membersOf ([] ++ written rules values))) = some values :=
    mapM_member?_written hallows hnames (by simp)
  rw [ofFields, fields?]
  exact (if_pos hkeys).trans hmembers

theorem plain_written {rules : List FieldRule} {values : List (Option Json)}
    (h : ∀ value ∈ values, ∀ j ∈ value, j.Plain) : (ofFields (written rules values)).Plain := by
  have hfields : ∀ field ∈ written rules values, field.2.Plain := by
    fun_induction written rules values with
    | case1 rule rules value values ih =>
      obtain ⟨hvalue, hmore⟩ := List.forall_mem_cons.1 h
      rw [List.forall_mem_append]
      refine ⟨?_, ih hmore⟩
      cases value with
      | none => simp [FieldRule.field]
      | some value => simpa [FieldRule.field] using hvalue value rfl
    | case2 => simp
  refine .object fun m hm => ?_
  obtain ⟨field, hfield, rfl⟩ := List.mem_map.1 hm
  exact hfields field hfield

/-! ## Writers and readers -/

/-- A writer and a reader that fit together, for the values that fit. -/
structure Exchanged (toJson : α → Json) (ofJson? : Json → Option α) (Fits : α → Prop) : Prop where
  plain : ∀ a, (toJson a).Plain
  reads : ∀ a, Fits a → ofJson? (toJson a) = some a
  fits : ∀ j a, ofJson? j = some a → Fits a

theorem plain_ofText (s : String) : (ofText s).Plain :=
  .scalar (by simp)

theorem plain_null : null.Plain :=
  .scalar (by simp)

theorem exchanged_text : Exchanged ofText text? fun _ => True where
  plain := plain_ofText
  reads s _ := text?_ofText s
  fits _ _ _ := trivial

theorem exchanged_bool : Exchanged ofBool bool? fun _ => True where
  plain b := .scalar (by simp)
  reads b _ := bool?_ofBool b
  fits _ _ _ := trivial

theorem exchanged_nat (limit : Nat) : Exchanged ofNat (nat? limit) (· < limit) where
  plain n := .scalar (by simp)
  reads n hn := nat?_ofNat hn
  fits j n h := by
    obtain ⟨i, -, hi⟩ := Option.bind_eq_some_iff.1 h
    split at hi
    · cases hi
      omega
    · cases hi

theorem exchanged_word : Exchanged ofInt word?
    fun n => Int64.minValue.toInt ≤ n ∧ n ≤ Int64.maxValue.toInt where
  plain n := .scalar (by simp)
  reads n hn := by
    rw [word?, int?_ofInt]
    exact Option.filter_some_pos (by simpa using hn)
  fits j n h := by
    have hn := (Option.filter_eq_some_iff.1 h).2
    simpa using hn

section

variable {toJson : α → Json} {ofJson? : Json → Option α} {Fits : α → Prop}

theorem Exchanged.list (h : Exchanged toJson ofJson? Fits) :
    Exchanged (ofList toJson) (list? ofJson?) fun as => ∀ a ∈ as, Fits a where
  plain as := by
    refine .array fun j hj => ?_
    obtain ⟨a, -, rfl⟩ := List.mem_map.1 hj
    exact h.plain a
  reads as has := list?_ofList as fun a ha => h.reads a (has a ha)
  fits j as hj := by
    cases j with
    | array items =>
      rw [list?] at hj
      induction items generalizing as with
      | nil =>
        cases hj
        simp
      | cons item items ih =>
        simp only [List.mapM_cons, Option.bind_eq_bind, Option.bind_eq_some_iff] at hj
        obtain ⟨a, ha, more, hmore, has⟩ := hj
        cases has
        exact List.forall_mem_cons.2 ⟨h.fits item a ha, ih more hmore⟩
    | scalar value => cases hj
    | object members => cases hj

theorem option?_of_ne_null {j : Json} (h : j ≠ null) :
    option? ofJson? j = (ofJson? j).map some := by
  unfold option?
  split
  · exact absurd rfl h
  · rfl

theorem Exchanged.option (h : Exchanged toJson ofJson? Fits) (hnull : ∀ a, toJson a ≠ null) :
    Exchanged (ofOption toJson) (option? ofJson?) fun o => ∀ a ∈ o, Fits a where
  plain o := by
    cases o with
    | none => exact plain_null
    | some a => exact h.plain a
  reads o ho := by
    cases o with
    | none => rfl
    | some a => rw [ofOption, option?_of_ne_null (hnull a), h.reads a (ho a rfl), Option.map_some]
  fits j o hj := by
    unfold option? at hj
    split at hj
    · cases hj
      simp
    · obtain ⟨a, ha, rfl⟩ := Option.map_eq_some_iff.1 hj
      rintro _ ⟨⟩
      exact h.fits _ a ha

theorem Exchanged.reads_required (h : Exchanged toJson ofJson? Fits) {a : α} (ha : Fits a) :
    required ofJson? (some (toJson a)) = some a :=
  h.reads a ha

theorem Exchanged.reads_orElse (h : Exchanged toJson ofJson? Fits) (default : α) {a : α}
    (ha : Fits a) : orElse default ofJson? (some (toJson a)) = some a :=
  h.reads a ha

/-- A field that is left out when there is nothing in it. -/
theorem Exchanged.reads_optional (h : Exchanged toJson ofJson? Fits) (hnull : ∀ a, toJson a ≠ null)
    {o : Option α} (ho : ∀ a ∈ o, Fits a) :
    orElse none (option? ofJson?) (o.map toJson) = some o := by
  cases o with
  | none => rfl
  | some a => exact (h.option hnull).reads_orElse none ho

theorem Exchanged.fits_required (h : Exchanged toJson ofJson? Fits) {field : Option Json} {a : α}
    (ha : required ofJson? field = some a) : Fits a := by
  cases field with
  | none => cases ha
  | some j => exact h.fits j a ha

theorem Exchanged.fits_orElse (h : Exchanged toJson ofJson? Fits) {default : α}
    (hdefault : Fits default) {field : Option Json} {a : α}
    (ha : orElse default ofJson? field = some a) : Fits a := by
  cases field with
  | none =>
    cases ha
    exact hdefault
  | some j => exact h.fits j a ha

/-- A record is exchanged if its fields are; `values` has one place for each, empty where the field
is left out. -/
theorem Exchanged.record (rules : List FieldRule) (values : α → List (Option Json))
    (hjson : ∀ a, toJson a = ofFields (written rules (values a)))
    (hnames : (rules.map (·.name)).Nodup)
    (hallows : ∀ a, List.Forall₂ FieldRule.Allows rules (values a))
    (hplain : ∀ a, ∀ value ∈ values a, ∀ j ∈ value, j.Plain)
    (hreads : ∀ a, Fits a → fields? rules (toJson a) = some (values a) →
      ofJson? (toJson a) = some a)
    (hfits : ∀ j a, ofJson? j = some a → Fits a) : Exchanged toJson ofJson? Fits where
  plain a := by
    rw [hjson]
    exact plain_written (hplain a)
  reads a ha := by
    apply hreads a ha
    rw [hjson, fields?_written (hallows a) hnames]
  fits := hfits

/-! ## Documents -/

/-- The value that a document gives. -/
def read (ofJson? : Json → Option α) (text : String) : Option α :=
  (parse text).bind ofJson?

/-- The document of a value. -/
def write (toJson : α → Json) (a : α) : String :=
  (toJson a).render

/-- What fits is read back from its document, and of every document that is read the value fits and
is read again from its own document. -/
structure RoundTrips (toJson : α → Json) (ofJson? : Json → Option α) (Fits : α → Prop) : Prop where
  read_write : ∀ a, Fits a → read ofJson? (write toJson a) = some a
  fits_of_read : ∀ text a, read ofJson? text = some a → Fits a
  rewrite : ∀ text a, read ofJson? text = some a → read ofJson? (write toJson a) = some a

theorem Exchanged.roundTrips (h : Exchanged toJson ofJson? Fits) :
    RoundTrips toJson ofJson? Fits := by
  have hread : ∀ a, Fits a → read ofJson? (write toJson a) = some a := by
    intro a ha
    rw [read, write, parse_render (h.plain a), Option.bind_some, h.reads a ha]
  have hfits : ∀ text a, read ofJson? text = some a → Fits a := by
    intro text a ha
    obtain ⟨j, -, hj⟩ := Option.bind_eq_some_iff.1 ha
    exact h.fits j a hj
  exact ⟨hread, hfits, fun text a ha => hread a (hfits text a ha)⟩

end

end Json
end ScriptScope
