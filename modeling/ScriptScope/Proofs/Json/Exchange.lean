import ScriptScope.DebugInfo.Json
import ScriptScope.Proofs.Json.Records
import ScriptScope.Proofs.ScriptHash.Text
import ScriptScope.Settings
import ScriptScope.Storage.Json
import ScriptScope.Variable.Stub

/-!
# ScriptScope.Proofs.Json.Exchange

Every record that is exchanged survives the exchange.

For each record there is one lemma that ties its writer to its reader, from the same lemmas about
its fields; the two are given by separate lists of names, which here turn out to be the same.

* `ScriptHash.exchanged`, `Method.exchanged` and so on: one record each.
* `records_roundTrip`: all records with a document form, and what a stub leaves out.
-/

namespace ScriptScope

open Json

namespace ScriptHash

theorem exchanged : Exchanged toJson ofJson? fun _ => True where
  plain h := plain_ofText h.text
  reads h _ := by
    rw [ofJson?, toJson, text?_ofText, Option.bind_some, parse_text]
    rfl
  fits _ _ _ := trivial

end ScriptHash

theorem Bytes.exchanged : Exchanged Bytes.toJson Bytes.ofJson? fun _ => True where
  plain bs := plain_ofText _
  reads bs _ := by
    have hdecode : Bytes.ofJson? (Bytes.toJson bs) =
        (Hex.decode (String.ofList (Hex.marked bs))).toOption := rfl
    rw [hdecode, Hex.decode_marked]
    rfl
  fits _ _ _ := trivial

theorem StorageEntry.exchanged :
    Exchanged StorageEntry.toJson StorageEntry.ofJson? fun _ => True := by
  apply Exchanged.record jsonRules fun entry =>
    [some (Bytes.toJson entry.key), some (Bytes.toJson entry.value),
      some (.ofBool entry.isConstant)]
  case hjson => exact fun _ => rfl
  case hnames => decide
  case hallows => simp [jsonRules, FieldRule.Allows]
  case hplain => simp [Bytes.exchanged.plain, exchanged_bool.plain]
  case hreads =>
    intro entry _ hfields
    rw [ofJson?, hfields]
    simp [Bytes.exchanged.reads_required, exchanged_bool.reads_required]
  case hfits => exact fun _ _ _ => trivial

theorem Settings.exchanged : Exchanged Settings.toJson Settings.ofJson? Settings.Fits := by
  apply Exchanged.record jsonRules fun s =>
    [some (.ofNat s.addressWidth), some (.ofBool s.hashStorageBuffers),
      some (.ofNat s.maxByteChildren), some (.ofBool s.showAltStack)]
  case hjson => exact fun _ => rfl
  case hnames => decide
  case hallows => simp [jsonRules, FieldRule.Allows]
  case hplain => simp [exchanged_bool.plain, (exchanged_nat 0).plain]
  case hreads =>
    rintro s ⟨hwidth, hlimit⟩ hfields
    rw [ofJson?, hfields]
    simp [(exchanged_nat _).reads_orElse _ hwidth, (exchanged_nat _).reads_orElse _ hlimit,
      exchanged_bool.reads_orElse]
  case hfits =>
    intro j s h
    unfold ofJson? at h
    split at h
    · simp only [Option.bind_eq_bind, Option.bind_eq_some_iff] at h
      obtain ⟨width, hwidth, _, -, limit, hlimit, _, -, ⟨⟩⟩ := h
      exact ⟨(exchanged_nat _).fits_orElse (by decide) hwidth,
        (exchanged_nat _).fits_orElse (by decide) hlimit⟩
    · cases h

theorem Stub.exchanged : Exchanged Stub.toJson Stub.ofJson? Stub.Fits := by
  have hnat : ∀ n, Json.ofNat n ≠ null := by simp [ofNat, ofInt, null]
  have htext : ∀ s, ofText s ≠ null := by simp [ofText, null]
  apply Exchanged.record jsonRules fun s =>
    [some (.ofText s.name), some (.ofText s.typeLabel), some (.ofText s.value),
      some (.ofInt s.handle), s.indexedCount.map .ofNat, s.namedCount.map .ofNat,
      s.evaluatePath.map .ofText]
  case hjson =>
    rintro ⟨name, typeLabel, value, handle, _ | indexed, _ | named, _ | path⟩ <;> rfl
  case hnames => decide
  case hallows => simp [jsonRules, FieldRule.Allows]
  case hplain =>
    simp [plain_ofText, exchanged_word.plain, (exchanged_nat 0).plain]
  case hreads =>
    rintro s ⟨hlow, hhigh, hindexed, hnamed⟩ hfields
    rw [ofJson?, hfields]
    simp [exchanged_text.reads_required, exchanged_word.reads_required ⟨hlow, hhigh⟩,
      (exchanged_nat _).reads_optional hnat hindexed, (exchanged_nat _).reads_optional hnat hnamed,
      exchanged_text.reads_optional htext]
  case hfits =>
    intro j s h
    unfold ofJson? at h
    split at h
    · simp only [Option.bind_eq_bind, Option.bind_eq_some_iff] at h
      obtain ⟨_, -, _, -, _, -, handle, hhandle, indexed, hindexed, named, hnamed, _, -, ⟨⟩⟩ := h
      have hword := exchanged_word.fits_required hhandle
      exact ⟨hword.1, hword.2, ((exchanged_nat _).option hnat).fits_orElse (by simp) hindexed,
        ((exchanged_nat _).option hnat).fits_orElse (by simp) hnamed⟩
    · cases h

theorem Declaration.exchanged :
    Exchanged Declaration.toJson Declaration.ofJson? fun _ => True := by
  apply Exchanged.record jsonRules fun d => [some (.ofText d.name), some (.ofText d.typeName)]
  case hjson => exact fun _ => rfl
  case hnames => decide
  case hallows => simp [jsonRules, FieldRule.Allows]
  case hplain => simp [plain_ofText]
  case hreads =>
    intro d _ hfields
    rw [ofJson?, hfields]
    simp [exchanged_text.reads_required]
  case hfits => exact fun _ _ _ => trivial

theorem SourcePosition.exchanged :
    Exchanged SourcePosition.toJson SourcePosition.ofJson? SourcePosition.Fits := by
  apply Exchanged.record jsonRules fun p => [some (.ofNat p.line), some (.ofNat p.column)]
  case hjson => exact fun _ => rfl
  case hnames => decide
  case hallows => simp [jsonRules, FieldRule.Allows]
  case hplain => simp [(exchanged_nat 0).plain]
  case hreads =>
    rintro p ⟨hline, hcolumn⟩ hfields
    rw [ofJson?, hfields]
    simp [(exchanged_nat _).reads_required hline, (exchanged_nat _).reads_required hcolumn]
  case hfits =>
    intro j p h
    unfold ofJson? at h
    split at h
    · simp only [Option.bind_eq_bind, Option.bind_eq_some_iff] at h
      obtain ⟨line, hline, column, hcolumn, ⟨⟩⟩ := h
      exact ⟨(exchanged_nat _).fits_required hline, (exchanged_nat _).fits_required hcolumn⟩
    · cases h

theorem SequencePoint.exchanged :
    Exchanged SequencePoint.toJson SequencePoint.ofJson? SequencePoint.Fits := by
  apply Exchanged.record jsonRules fun p =>
    [some (.ofNat p.address), some (.ofNat p.document), some p.start.toJson, some p.stop.toJson]
  case hjson => exact fun _ => rfl
  case hnames => decide
  case hallows => simp [jsonRules, FieldRule.Allows]
  case hplain => simp [(exchanged_nat 0).plain, SourcePosition.exchanged.plain]
  case hreads =>
    rintro p ⟨haddress, hdocument, hstart, hstop⟩ hfields
    rw [ofJson?, hfields]
    simp [(exchanged_nat _).reads_required haddress, (exchanged_nat _).reads_required hdocument,
      SourcePosition.exchanged.reads_required hstart,
      SourcePosition.exchanged.reads_required hstop]
  case hfits =>
    intro j p h
    unfold ofJson? at h
    split at h
    · simp only [Option.bind_eq_bind, Option.bind_eq_some_iff] at h
      obtain ⟨address, haddress, document, hdocument, start, hstart, stop, hstop, ⟨⟩⟩ := h
      exact ⟨(exchanged_nat _).fits_required haddress, (exchanged_nat _).fits_required hdocument,
        SourcePosition.exchanged.fits_required hstart, SourcePosition.exchanged.fits_required hstop⟩
    · cases h

theorem Method.exchanged : Exchanged Method.toJson Method.ofJson? Method.Fits := by
  have hreturn := exchanged_text.option (by simp [ofText, null])
  apply Exchanged.record jsonRules fun m =>
    [some (.ofText m.id), some (.ofText m.owner), some (.ofText m.name), some (.ofNat m.start),
      some (.ofNat m.stop), some (.ofList Declaration.toJson m.parameters),
      some (.ofList Declaration.toJson m.variables), some (.ofOption .ofText m.returnType),
      some (.ofList SequencePoint.toJson m.sequencePoints), some m.scriptHash.toJson]
  case hjson => exact fun _ => rfl
  case hnames => decide
  case hallows => simp [jsonRules, FieldRule.Allows]
  case hplain =>
    simp [plain_ofText, (exchanged_nat 0).plain, Declaration.exchanged.list.plain,
      SequencePoint.exchanged.list.plain, hreturn.plain, ScriptHash.exchanged.plain]
  case hreads =>
    rintro m ⟨hstart, hstop, hpoints⟩ hfields
    rw [ofJson?, hfields]
    simp [exchanged_text.reads_required, (exchanged_nat _).reads_required hstart,
      (exchanged_nat _).reads_required hstop, Declaration.exchanged.list.reads_required,
      hreturn.reads_orElse, SequencePoint.exchanged.list.reads_required hpoints,
      ScriptHash.exchanged.reads_required]
  case hfits =>
    intro j m h
    unfold ofJson? at h
    split at h
    · simp only [Option.bind_eq_bind, Option.bind_eq_some_iff] at h
      obtain ⟨_, -, _, -, _, -, start, hstart, stop, hstop, _, -, _, -, _, -, points, hpoints, _, -,
        ⟨⟩⟩ := h
      exact ⟨(exchanged_nat _).fits_required hstart, (exchanged_nat _).fits_required hstop,
        SequencePoint.exchanged.list.fits_required hpoints⟩
    · cases h

theorem DebugInfo.exchanged : Exchanged DebugInfo.toJson DebugInfo.ofJson? DebugInfo.Fits := by
  apply Exchanged.record jsonRules fun info =>
    [some info.scriptHash.toJson, some (.ofText info.entrypoint),
      some (.ofList .ofText info.documents), some (.ofList Method.toJson info.methods)]
  case hjson => exact fun _ => rfl
  case hnames => decide
  case hallows => simp [jsonRules, FieldRule.Allows]
  case hplain =>
    simp [plain_ofText, exchanged_text.list.plain, Method.exchanged.list.plain,
      ScriptHash.exchanged.plain]
  case hreads =>
    intro info hmethods hfields
    rw [ofJson?, hfields]
    simp [ScriptHash.exchanged.reads_required, exchanged_text.reads_required,
      exchanged_text.list.reads_required, Method.exchanged.list.reads_required hmethods]
  case hfits =>
    intro j info h
    unfold ofJson? at h
    split at h
    · simp only [Option.bind_eq_bind, Option.bind_eq_some_iff] at h
      obtain ⟨_, -, _, -, _, -, methods, hmethods, ⟨⟩⟩ := h
      exact Method.exchanged.list.fits_required hmethods
    · cases h

/-- The keys of an object. -/
def Json.keys : Json → List (Option String)
  | .object members => members.map (·.1)
  | _ => []

theorem Json.keys_ofFields (fields : List (String × Json)) :
    (ofFields fields).keys = fields.map fun field => some field.1 :=
  List.map_map

theorem Stub.mem_keys_optionField {key name : String} {f : α → Json} {o : Option α} :
    (∃ value, (key, value) ∈ optionField name f o) ↔ key = name ∧ o.isSome := by
  cases o <;> simp [optionField]

theorem Stub.mem_keys_toJson (s : Stub) :
    (some "indexedVariables" ∈ s.toJson.keys ↔ s.indexedCount.isSome) ∧
      (some "namedVariables" ∈ s.toJson.keys ↔ s.namedCount.isSome) ∧
      (some "evaluateName" ∈ s.toJson.keys ↔ s.evaluatePath.isSome) := by
  simp [toJson, keys_ofFields, mem_keys_optionField]

theorem records_roundTrip :
    RoundTrips ScriptHash.toJson ScriptHash.ofJson? (fun _ => True) ∧
    RoundTrips StorageEntry.toJson StorageEntry.ofJson? (fun _ => True) ∧
    RoundTrips Stub.toJson Stub.ofJson? Stub.Fits ∧
    RoundTrips Declaration.toJson Declaration.ofJson? (fun _ => True) ∧
    RoundTrips SequencePoint.toJson SequencePoint.ofJson? SequencePoint.Fits ∧
    RoundTrips Method.toJson Method.ofJson? Method.Fits ∧
    RoundTrips DebugInfo.toJson DebugInfo.ofJson? DebugInfo.Fits ∧
    RoundTrips Settings.toJson Settings.ofJson? Settings.Fits ∧
    ∀ s : Stub,
      (some "indexedVariables" ∈ s.toJson.keys ↔ s.indexedCount.isSome) ∧
      (some "namedVariables" ∈ s.toJson.keys ↔ s.namedCount.isSome) ∧
      (some "evaluateName" ∈ s.toJson.keys ↔ s.evaluatePath.isSome) :=
  ⟨ScriptHash.exchanged.roundTrips, StorageEntry.exchanged.roundTrips, Stub.exchanged.roundTrips,
    Declaration.exchanged.roundTrips, SequencePoint.exchanged.roundTrips,
    Method.exchanged.roundTrips, DebugInfo.exchanged.roundTrips, Settings.exchanged.roundTrips,
    Stub.mem_keys_toJson⟩

/-- An array that ends early, and an object with a key that nobody knows: both are read, and what is
written of them is read again. -/
theorem records_roundTrip_sparse :
    let array := " [5,false]"
    let object := "\x7b\"value\":\"1\",\"hint\":[1.5e3,null],\"name\":\"x\"," ++
      "\"variablesReference\":-4,\"type\":\"Integer\"\x7d"
    let settings : Settings := ⟨5, false, 0, true⟩
    let stub : Stub := ⟨"x", "Integer", "1", -4, none, none, none⟩
    read Settings.ofJson? array = some settings ∧
      read Settings.ofJson? (write Settings.toJson settings) = some settings ∧
      read Stub.ofJson? object = some stub ∧
      read Stub.ofJson? (write Stub.toJson stub) = some stub := by
  intro array object settings stub
  obtain ⟨-, -, hstub, -, -, -, -, hsettings, -⟩ := records_roundTrip
  have harray : read Settings.ofJson? array = some settings := by decide +kernel
  have hobject : read Stub.ofJson? object = some stub := by decide +kernel
  exact ⟨harray, hsettings.rewrite _ _ harray, hobject, hstub.rewrite _ _ hobject⟩

end ScriptScope
