import ScriptScope.Proofs.Frame.Indexing
import ScriptScope.Proofs.Session.Log
import ScriptScope.Proofs.Session.ReadThrough
import ScriptScope.Proofs.Text.Hexadecimal

/-!
# ScriptScope.Proofs.Frame.StorageEntries

Paths into the storage. A hash of thirty-two bits does not determine a key, so a path selects the
first entry with the hash, in the order of the store; the path of the entry and those of its halves
search the store anew, and select the same one.

* `storageEntry_cases`: the search finds the first entry with the hash, among those of the contract
  of the frame.
* `Stub.isBuffer_iff`, `Stub.isEntry_iff`: a session shows halves and entries as they are described
  here, by their digits.
* `Session.opens_of_get?`: an entry that is expanded shows its halves and its flag, whatever the
  store holds by then.
* `evaluatePathIn_storage`: what the paths with a hash select, in every frame and session; the
  entries of other contracts make no difference.
-/

namespace ScriptScope

/-- The three paths with a hash: of an entry, and of each half of it. -/
def EvaluatePath.ofStorage (keyHash : UInt32) : Option StorageField → EvaluatePath
  | none => .storageEntry keyHash
  | some half => .storage keyHash half

theorem EvaluatePath.spells_ofStorage (keyHash : UInt32) (part : Option StorageField) :
    Spells (ofStorage keyHash part).text.toList (ofStorage keyHash part) := by
  have hcanonical : (ofStorage keyHash part).Canonical := by
    cases part <;> trivial
  rw [text, String.toList_ofList]
  exact spells_chars hcanonical

/-- The first entry whose key has a hash, and its place. -/
structure StorageEntry.First (entries : List StorageEntry) (keyHash : UInt32) (i : Nat)
    (entry : StorageEntry) : Prop where
  getElem? : entries[i]? = some entry
  hash : contentHash entry.key = keyHash
  before : ∀ j other, j < i → entries[j]? = some other → contentHash other.key ≠ keyHash

namespace Stub

/-- What a label has behind the size of a byte string: the eight digits of its content hash, if
they are asked for. -/
inductive Tags (content : Bytes) : Bool → String → Prop where
  | untagged : Tags content false ""
  | tagged {digits : List Char} (hdigits : Hex.IsWord digits (contentHash content).toNat) :
    Tags content true (" #" ++ String.ofList digits)

/-- A byte string of the storage: its bytes, its size, and its tag. The count goes up to the
limit. -/
inductive IsBuffer (presentation : Presentation) (name : String) (content : Bytes) (path : String)
    (handle : Int) : Stub → Prop where
  | intro {tag preview : String} (htag : Tags content presentation.hashStorageBuffers tag)
    (hpreview : Hex.Shows preview content) :
    IsBuffer presentation name content path handle
      ⟨name, "Byte[" ++ toString content.length ++ "]" ++ tag, preview, handle,
        some (presentation.byteLimit.elim content.length (min content.length)), none, some path⟩

/-- An entry of the storage: the bytes of its value. -/
inductive IsEntry (entry : StorageEntry) (name path : String) (handle : Int) : Stub → Prop where
  | intro {preview : String} (hpreview : Hex.Shows preview entry.value) :
    IsEntry entry name path handle
      ⟨name, "StorageEntry", preview, handle, none, some 3, some path⟩

/-- What lies below an entry: its key, its value, and whether it is constant. -/
inductive AreParts (presentation : Presentation) (entry : StorageEntry) (path : String)
    (handle : Int) : List Stub → Prop where
  | intro {key value : Stub}
    (hkey : IsBuffer presentation "key" entry.key (path ++ "." ++ "key") handle key)
    (hvalue : IsBuffer presentation "value" entry.value (path ++ "." ++ "value") (handle + 1)
      value) :
    AreParts presentation entry path handle
      [key, value, ⟨"constant", "Boolean", toString entry.isConstant, 0, none, none, none⟩]

variable {presentation : Presentation} {name path : String} {handle : Int} {stub : Stub}

theorem tags_iff {content : Bytes} {tagged : Bool} {tag : String} :
    Tags content tagged tag ↔
      tag = if tagged then " #" ++ String.ofList (Hex.word (contentHash content)) else "" := by
  constructor
  · rintro (_ | hdigits)
    · rfl
    · rw [Hex.isWord_iff.1 hdigits]
      rfl
  · rintro rfl
    cases tagged with
    | false => exact .untagged
    | true => exact .tagged (Hex.isWord_iff.2 rfl)

theorem isBuffer_iff {content : Bytes} (memory : Memory) :
    IsBuffer presentation name content path handle stub ↔
      stub = Container.stub memory presentation.byteLimit
        ⟨.bytes content presentation.hashStorageBuffers, name, some path⟩ handle := by
  obtain ⟨tagged, limit⟩ := presentation
  constructor
  · rintro ⟨htag, hpreview⟩
    obtain rfl := tags_iff.1 htag
    obtain rfl := Hex.shows_iff.1 hpreview
    cases limit <;> rfl
  · rintro rfl
    cases limit <;> exact .intro (tags_iff.2 rfl) (Hex.shows_iff.2 rfl)

theorem isEntry_iff {entry : StorageEntry} (memory : Memory) (limit : Option Nat) :
    IsEntry entry name path handle stub ↔
      stub = Container.stub memory limit ⟨.storageEntry entry, name, some path⟩ handle := by
  constructor
  · rintro ⟨hpreview⟩
    obtain rfl := Hex.shows_iff.1 hpreview
    rfl
  · rintro rfl
    exact .intro (Hex.shows_iff.2 rfl)

end Stub

namespace Session

variable {memory : Memory} {s : Session}

/-- A handle that opens an entry, in any session later and with any memory. -/
def Opens (s : Session) (handle : Int) (entry : StorageEntry) (path : String) : Prop :=
  ∀ (now : Session) (memory : Memory), s.Later now → now.contains handle = true →
    ∃ stubs later, now.expand memory handle = .ok (stubs, later) ∧
      Stub.AreParts s.presentation entry path now.nextHandle stubs

theorem isBuffer_present (memory : Memory) (s : Session) (half : StorageField) (content : Bytes)
    (path : String) :
    Stub.IsBuffer s.presentation half.name content (path ++ "." ++ half.name) s.nextHandle
      (s.present memory (Container.halfChild s.presentation (some path) half content)).1 :=
  (Stub.isBuffer_iff memory).2 rfl

theorem areParts_presentAll (memory : Memory) (s : Session) (entry : StorageEntry)
    (name path : String) :
    Stub.AreParts s.presentation entry path s.nextHandle
      (s.presentAll memory (Container.children memory s.presentation
        ⟨.storageEntry entry, name, some path⟩)).1 := by
  let behind := (s.present memory
    (Container.halfChild s.presentation (some path) .key entry.key)).2
  have hnext : (behind.nextHandle : Int) = s.nextHandle + 1 :=
    congrArg Int.ofNat (nextHandle_register memory _ s)
  have hkey := isBuffer_present memory s .key entry.key path
  have hvalue := isBuffer_present memory behind .value entry.value path
  rw [hnext] at hvalue
  have hconstant : toString entry.isConstant = Item.boolText entry.isConstant := by
    cases entry.isConstant <;> rfl
  have hparts := Stub.AreParts.intro hkey hvalue
  rw [hconstant] at hparts
  exact hparts

theorem opens_of_get? {handle : Int} {entry : StorageEntry} {name path : String}
    (h : s.get? handle = some ⟨.storageEntry entry, name, some path⟩) :
    s.Opens handle entry path := by
  intro now memory hlater hlive
  obtain ⟨c, hc⟩ := Option.isSome_iff_exists.1 hlive
  obtain rfl := Option.some.inj ((hlater.get? (lt_nextHandle h) hc).symm.trans h)
  rw [expand, hc, ← hlater.presentation]
  exact ⟨_, _, rfl, areParts_presentAll memory now entry name path⟩

/-- The storage of a contract shows its entries in order, under consecutive handles. -/
theorem getElem?_presentAll_storageChild {entries : List StorageEntry} {i : Nat}
    {entry : StorageEntry} (h : entries[i]? = some entry) :
    ∃ stub, (s.presentAll memory (entries.map Container.storageChild)).1[i]? = some stub ∧
      Stub.IsEntry entry (String.ofList (Hex.word entry.keyHash))
        (EvaluatePath.storageEntry entry.keyHash).text (s.nextHandle + i : Nat) stub := by
  induction entries generalizing s i with
  | nil => cases h
  | cons first rest ih =>
    rw [List.map_cons, presentAll_cons]
    cases i with
    | zero =>
      obtain rfl : first = entry := Option.some.inj h
      exact ⟨_, rfl, (Stub.isEntry_iff memory s.presentation.byteLimit).2 rfl⟩
    | succ i =>
      have hnext : (s.present memory (Container.storageChild first)).2.nextHandle + i =
          s.nextHandle + (i + 1) := by
        simp only [Container.storageChild, present, nextHandle_register]
        omega
      rw [← hnext]
      exact ih h

/-- Each of them opens the entry that it shows. -/
theorem opens_presentAll_storageChild {entries : List StorageEntry} {i : Nat}
    {entry : StorageEntry} (h : entries[i]? = some entry) :
    (s.presentAll memory (entries.map Container.storageChild)).2.Opens (s.nextHandle + i : Nat)
      entry (EvaluatePath.storageEntry entry.keyHash).text := by
  have hchild : (entries.map Container.storageChild)[i]? =
      some (.node ⟨.storageEntry entry, String.ofList (Hex.word entry.keyHash),
        some (EvaluatePath.storageEntry entry.keyHash).text⟩) := by
    rw [List.getElem?_map, h]
    rfl
  obtain ⟨stub, hstub, hget⟩ := @get?_of_getElem?_presentAll memory s _ _ _ hchild
  obtain ⟨shown, hshown, ⟨⟩⟩ := @getElem?_presentAll_storageChild memory s _ _ _ h
  obtain rfl := Option.some.inj (hstub.symm.trans hshown)
  exact opens_of_get? hget

theorem presentAll_storageChild_congr (memory other : Memory) (entries : List StorageEntry) :
    s.presentAll other (entries.map Container.storageChild) =
      s.presentAll memory (entries.map Container.storageChild) := by
  induction entries generalizing s with
  | nil => rfl
  | cons first rest ih =>
    have hfirst : s.present other (Container.storageChild first) =
        s.present memory (Container.storageChild first) := rfl
    rw [List.map_cons, presentAll_cons, presentAll_cons, hfirst]
    simp only [ih]

end Session

namespace Frame

variable {frame : Frame} {context : Context} {memory : Memory} {s : Session} {keyHash : UInt32}

theorem find?_keyHash_eq_some_iff {entries : List StorageEntry} {entry : StorageEntry} :
    entries.find? (fun e => e.keyHash = keyHash) = some entry ↔
      ∃ i, StorageEntry.First entries keyHash i entry := by
  rw [List.find?_eq_some_iff_getElem]
  constructor
  · rintro ⟨hhash, i, hlt, rfl, hbefore⟩
    refine ⟨i, List.getElem?_eq_getElem hlt, of_decide_eq_true hhash, ?_⟩
    intro j other hj hother
    obtain ⟨hjlt, rfl⟩ := List.getElem?_eq_some_iff.1 hother
    have hne : entries[j].keyHash ≠ keyHash := by simpa using hbefore j hj
    exact hne
  · rintro ⟨i, hentry, hhash, hbefore⟩
    obtain ⟨hlt, rfl⟩ := List.getElem?_eq_some_iff.1 hentry
    refine ⟨decide_eq_true hhash, i, hlt, rfl, ?_⟩
    intro j hj
    have hne : entries[j].keyHash ≠ keyHash :=
      hbefore j _ hj (List.getElem?_eq_getElem (Nat.lt_trans hj hlt))
    simpa using hne

/-- The entry that is found is the first one; if none has the hash, that is the fault. -/
theorem storageEntry_cases (hshown : frame.showsStorage = true) :
    (∃ i entry, StorageEntry.First (memory.storage context.scriptHash) keyHash i entry ∧
      frame.storageEntry context memory keyHash = .ok entry) ∨
    ((∀ entry ∈ memory.storage context.scriptHash, contentHash entry.key ≠ keyHash) ∧
      frame.storageEntry context memory keyHash = .error (.unknownStorageKey keyHash)) := by
  rw [storageEntry, if_pos hshown]
  cases hfind : (memory.storage context.scriptHash).find? (fun e => e.keyHash = keyHash) with
  | some entry =>
    obtain ⟨i, hfirst⟩ := find?_keyHash_eq_some_iff.1 hfind
    exact .inl ⟨i, entry, hfirst, rfl⟩
  | none =>
    refine .inr ⟨fun entry hentry => ?_, rfl⟩
    have hne : entry.keyHash ≠ keyHash := by simpa using List.find?_eq_none.1 hfind entry hentry
    exact hne

theorem evaluate_ofStorage_of_error {e : EvalError} {presentation : Presentation}
    (h : frame.storageEntry context memory keyHash = .error e) (part : Option StorageField) :
    frame.evaluate context memory presentation (.ofStorage keyHash part) = .error e := by
  cases part with
  | none =>
    simp only [EvaluatePath.ofStorage, evaluate, h]
    rfl
  | some half =>
    simp only [EvaluatePath.ofStorage, evaluate, h]
    rfl

theorem children_storageContainer {c : Container} (h : frame.storageContainer? context = some c)
    (memory : Memory) (presentation : Presentation) :
    c.children memory presentation =
      (memory.storage context.scriptHash).map Container.storageChild := by
  unfold storageContainer? at h
  split at h
  · obtain rfl := Option.some.inj h
    rfl
  · cases h

/-- What the paths with a hash select where an entry is the first with it, and what the storage
shows at its place. -/
structure ShowsEntry (frame : Frame) (context : Context) (memory : Memory) (s : Session)
    (keyHash : UInt32) (i : Nat) (entry : StorageEntry) : Prop where
  whole :
    let path := (EvaluatePath.storageEntry keyHash).text
    ∃ stub after, frame.evaluatePathIn context memory s (.storageEntry keyHash) =
        .ok (stub, after) ∧
      Stub.IsEntry entry path path s.nextHandle stub ∧ after.Opens s.nextHandle entry path
  key :
    let path := (EvaluatePath.storage keyHash .key).text
    ∃ stub after, frame.evaluatePathIn context memory s (.storage keyHash .key) =
        .ok (stub, after) ∧
      Stub.IsBuffer s.presentation path entry.key path s.nextHandle stub
  value :
    let path := (EvaluatePath.storage keyHash .value).text
    ∃ stub after, frame.evaluatePathIn context memory s (.storage keyHash .value) =
        .ok (stub, after) ∧
      Stub.IsBuffer s.presentation path entry.value path s.nextHandle stub
  scope : ∀ c, frame.storageContainer? context = some c →
    let shown := s.presentAll memory (c.children memory s.presentation)
    let path := (EvaluatePath.storageEntry keyHash).text
    ∃ stub digits, shown.1[i]? = some stub ∧ Hex.IsWord digits keyHash.toNat ∧
      Stub.IsEntry entry (String.ofList digits) path (s.nextHandle + i : Nat) stub ∧
      shown.2.Opens (s.nextHandle + i : Nat) entry path

theorem showsEntry_of_first {i : Nat} {entry : StorageEntry}
    (hentry : frame.storageEntry context memory keyHash = .ok entry)
    (h : StorageEntry.First (memory.storage context.scriptHash) keyHash i entry) :
    frame.ShowsEntry context memory s keyHash i entry where
  whole := by
    refine ⟨_, _, evaluatePathIn_of_evaluate (evaluate_of_selects (.storageEntry hentry)) rfl,
      (Stub.isEntry_iff memory s.presentation.byteLimit).2 rfl, ?_⟩
    exact Session.opens_of_get? (Session.get?_register_self memory _ s)
  key := ⟨_, _, evaluatePathIn_of_evaluate (evaluate_of_selects (.storage .key hentry)) rfl,
    (Stub.isBuffer_iff memory).2 rfl⟩
  value := ⟨_, _, evaluatePathIn_of_evaluate (evaluate_of_selects (.storage .value hentry)) rfl,
    (Stub.isBuffer_iff memory).2 rfl⟩
  scope c hc := by
    obtain rfl : entry.keyHash = keyHash := h.hash
    rw [children_storageContainer hc]
    obtain ⟨stub, hstub, hshows⟩ := Session.getElem?_presentAll_storageChild h.getElem?
    exact ⟨stub, _, hstub, Hex.isWord_iff.2 rfl, hshows,
      Session.opens_presentAll_storageChild h.getElem?⟩

/-- The storage of the contract is all that the paths look at. -/
theorem evaluatePathIn_ofStorage_congr {other : Memory}
    (h : other.storage context.scriptHash = memory.storage context.scriptHash)
    (part : Option StorageField) :
    frame.evaluatePathIn context other s (.ofStorage keyHash part) =
      frame.evaluatePathIn context memory s (.ofStorage keyHash part) := by
  have hentry : frame.storageEntry context other keyHash =
      frame.storageEntry context memory keyHash := by
    rw [storageEntry, storageEntry, h]
  cases hfound : frame.storageEntry context memory keyHash with
  | error e =>
    rw [hfound] at hentry
    rw [evaluatePathIn_eq_error.2 (evaluate_ofStorage_of_error hfound part),
      evaluatePathIn_eq_error.2 (evaluate_ofStorage_of_error hentry part)]
  | ok entry =>
    rw [hfound] at hentry
    cases part with
    | none =>
      rw [EvaluatePath.ofStorage,
        evaluatePathIn_of_evaluate (evaluate_of_selects (.storageEntry hentry)) rfl,
        evaluatePathIn_of_evaluate (evaluate_of_selects (.storageEntry hfound)) rfl]
      rfl
    | some half =>
      rw [EvaluatePath.ofStorage,
        evaluatePathIn_of_evaluate (evaluate_of_selects (.storage half hentry)) rfl,
        evaluatePathIn_of_evaluate (evaluate_of_selects (.storage half hfound)) rfl]
      rfl

theorem presentAll_storage_congr {other : Memory} {c : Container}
    (h : other.storage context.scriptHash = memory.storage context.scriptHash)
    (hc : frame.storageContainer? context = some c) :
    s.presentAll other (c.children other s.presentation) =
      s.presentAll memory (c.children memory s.presentation) := by
  rw [children_storageContainer hc, children_storageContainer hc, h]
  exact Session.presentAll_storageChild_congr memory other _

theorem evaluatePathIn_storage (frame : Frame) (context : Context) (memory : Memory) (s : Session)
    (keyHash : UInt32) :
    (∀ part, EvaluatePath.Spells (EvaluatePath.ofStorage keyHash part).text.toList
      (.ofStorage keyHash part)) ∧
    (∀ part input, EvaluatePath.Writes input (.ofStorage keyHash part) →
      frame.evaluateIn context memory s input =
        frame.evaluatePathIn context memory s (.ofStorage keyHash part)) ∧
    (∀ settings turns, (Session.Log.run settings turns).session.presentation.hashStorageBuffers =
      settings.hashStorageBuffers) ∧
    (frame.showsStorage = false → ∀ part,
      frame.evaluatePathIn context memory s (.ofStorage keyHash part) = .error .noStorage) ∧
    (frame.showsStorage = true →
      ((∀ part, frame.evaluatePathIn context memory s (.ofStorage keyHash part) =
          .error (.unknownStorageKey keyHash)) ↔
        ∀ entry ∈ memory.storage context.scriptHash, contentHash entry.key ≠ keyHash) ∧
      ((∃ entry ∈ memory.storage context.scriptHash, contentHash entry.key = keyHash) →
        ∃ i entry, StorageEntry.First (memory.storage context.scriptHash) keyHash i entry ∧
          frame.ShowsEntry context memory s keyHash i entry)) ∧
    ∀ other : Memory, other.storage context.scriptHash = memory.storage context.scriptHash →
      (∀ part, frame.evaluatePathIn context other s (.ofStorage keyHash part) =
        frame.evaluatePathIn context memory s (.ofStorage keyHash part)) ∧
      ∀ c, frame.storageContainer? context = some c →
        s.presentAll other (c.children other s.presentation) =
          s.presentAll memory (c.children memory s.presentation) := by
  refine ⟨EvaluatePath.spells_ofStorage keyHash,
    fun part input h => evaluateIn_of_parse (EvaluatePath.parse_eq_ok_iff.2 h),
    fun settings turns => congrArg _ (Session.Log.presentation_foldl ..), ?_, ?_,
    fun other h => ⟨evaluatePathIn_ofStorage_congr h, fun c => presentAll_storage_congr h⟩⟩
  · intro hshown part
    have hnone : frame.storageEntry context memory keyHash = .error .noStorage := by
      rw [storageEntry, if_neg (by simp [hshown])]
    exact evaluatePathIn_eq_error.2 (evaluate_ofStorage_of_error hnone part)
  · intro hshown
    have hcases := @storageEntry_cases frame context memory keyHash hshown
    rcases hcases with ⟨i, entry, hfirst, hfound⟩ | ⟨hnone, hfault⟩
    · have hmem := List.mem_of_getElem? hfirst.getElem?
      have hshows : frame.ShowsEntry context memory s keyHash i entry :=
        showsEntry_of_first hfound hfirst
      refine ⟨⟨fun h => ?_, fun h => absurd hfirst.hash (h entry hmem)⟩,
        fun _ => ⟨i, entry, hfirst, hshows⟩⟩
      obtain ⟨stub, after, hwhole, -⟩ := hshows.whole
      cases hwhole.symm.trans (h none)
    · refine ⟨⟨fun _ => hnone, fun _ part => ?_⟩, ?_⟩
      · exact evaluatePathIn_eq_error.2 (evaluate_ofStorage_of_error hfault part)
      · rintro ⟨entry, hmem, hhash⟩
        exact absurd hhash (hnone entry hmem)

/-- Two contracts with one key: the entry of the other contract comes and goes. The label of the key
has a tag, and that of the value has none where none is asked for. -/
theorem evaluatePathIn_storage_foreign :
    let foreign : ScriptHash := ⟨List.replicate 20 1, rfl⟩
    let entry : StorageEntry := ⟨[0x73, 0x75, 0x70, 0x70, 0x6C, 0x79], [0xE8, 0x03], true⟩
    let shared := (Storage.empty.put .zero entry).put foreign ⟨entry.key, [2], false⟩
    let memory := fun store : Storage => (⟨⟨#[], #[]⟩, store.entries⟩ : Memory)
    let context : Context := ⟨.zero, 0, [], [], []⟩
    let frame : Frame := ⟨none, none, true, true⟩
    let blind : Frame := ⟨none, none, false, true⟩
    let keyHash : UInt32 := 0xB308CFBB
    let path := "$storage[b308cfbb]"
    let ofKey := "$storage[b308cfbb].key"
    let ofValue := "$storage[b308cfbb].value"
    let whole : Stub := ⟨path, "StorageEntry", "0xe803", 1, none, some 3, some path⟩
    let key : Stub := ⟨ofKey, "Byte[6] #b308cfbb", "0x737570706c79", 1, some 6, none, some ofKey⟩
    let value : Stub := ⟨ofValue, "Byte[2]", "0xe803", 1, some 2, none, some ofValue⟩
    let s := Session.start {}
    let untagged := Session.start { hashStorageBuffers := false }
    (∃ after, frame.evaluateIn context (memory shared) s path = .ok (whole, after) ∧
      after.Opens 1 entry path ∧
      frame.evaluatePathIn context (memory (shared.clear foreign)) s (.storageEntry keyHash) =
        .ok (whole, after)) ∧
    (∃ after, frame.evaluateIn context (memory shared) s ofKey = .ok (key, after)) ∧
    (∃ after, frame.evaluateIn context (memory shared) untagged " $storage[B308CFBB].value" =
      .ok (value, after)) ∧
    (∀ part, frame.evaluatePathIn context (memory (shared.clear .zero)) s
      (.ofStorage keyHash part) = .error (.unknownStorageKey keyHash)) ∧
    ∀ part, blind.evaluatePathIn context (memory shared) s (.ofStorage keyHash part) =
      .error .noStorage := by
  intro foreign entry shared memory context frame blind keyHash path ofKey ofValue whole key value
    s untagged
  have hother : ScriptHash.zero ≠ foreign := by decide
  have hentries : shared.entries .zero = [entry] := Storage.entries_put_of_ne hother _ _
  have hdigest : (Keccak.digest entry.key).take 4 = [0xB3, 0x08, 0xCF, 0xBB] := by
    decide +kernel
  have hhash : contentHash entry.key = keyHash := by
    rw [contentHash, hdigest]
    decide +kernel
  have hpath : (EvaluatePath.storageEntry keyHash).text = path := by decide +kernel
  have hofKey : (EvaluatePath.storage keyHash .key).text = ofKey := by decide +kernel
  have hofValue : (EvaluatePath.storage keyHash .value).text = ofValue := by decide +kernel
  -- the entry is the first one of its contract, in both sessions
  have hshows : ∀ s, ∃ i, frame.ShowsEntry context (memory shared) s keyHash i entry := by
    intro s
    obtain ⟨-, -, -, -, hshown, -⟩ :=
      evaluatePathIn_storage frame context (memory shared) s keyHash
    obtain ⟨i, first, hfirst, hshows⟩ :=
      (hshown rfl).2 ⟨entry, by simp [memory, context, hentries], hhash⟩
    obtain rfl : first = entry := by
      have hmem := List.mem_of_getElem? hfirst.getElem?
      simpa [memory, context, hentries] using hmem
    exact ⟨i, hshows⟩
  have hread : ∀ (s : Session) (part : Option StorageField) (input : String),
      EvaluatePath.parse input = .ok (.ofStorage keyHash part) →
      frame.evaluateIn context (memory shared) s input =
        frame.evaluatePathIn context (memory shared) s (.ofStorage keyHash part) := by
    intro s part input hparse
    obtain ⟨-, hread, -⟩ := evaluatePathIn_storage frame context (memory shared) s keyHash
    exact hread part input (EvaluatePath.parse_eq_ok_iff.1 hparse)
  have hcleared : frame.evaluatePathIn context (memory (shared.clear foreign)) s
      (.storageEntry keyHash) =
        frame.evaluatePathIn context (memory shared) s (.storageEntry keyHash) := by
    obtain ⟨-, -, -, -, -, hcongr⟩ :=
      evaluatePathIn_storage frame context (memory shared) s keyHash
    exact (hcongr _ (Storage.entries_clear_of_ne hother shared)).1 none
  -- what is shown has one text each
  have hwholeText : Container.stub (memory shared) s.presentation.byteLimit
      ⟨.storageEntry entry, path, some path⟩ 1 = whole := by
    decide +kernel
  have hkeyText : Container.stub (memory shared) s.presentation.byteLimit
      ⟨.bytes entry.key true, ofKey, some ofKey⟩ 1 = key := by
    simp only [Container.stub, Subject.typeLabel, hhash]
    decide +kernel
  have hvalueText : Container.stub (memory shared) untagged.presentation.byteLimit
      ⟨.bytes entry.value false, ofValue, some ofValue⟩ 1 = value := by
    decide +kernel
  obtain ⟨i, htagged⟩ := hshows s
  obtain ⟨j, hplain⟩ := hshows untagged
  obtain ⟨_, after, hwhole, hstub, hopens⟩ := htagged.whole
  obtain ⟨_, afterKey, hkey, hkeyStub⟩ := htagged.key
  obtain ⟨_, afterValue, hvalue, hvalueStub⟩ := hplain.value
  rw [hpath] at hstub hopens
  rw [hofKey] at hkeyStub
  rw [hofValue] at hvalueStub
  obtain rfl := ((Stub.isEntry_iff (memory shared) _).1 hstub).trans hwholeText
  obtain rfl := ((Stub.isBuffer_iff (memory shared)).1 hkeyStub).trans hkeyText
  obtain rfl := ((Stub.isBuffer_iff (memory shared)).1 hvalueStub).trans hvalueText
  refine ⟨⟨after, ?_, hopens, hcleared.trans hwhole⟩, ⟨afterKey, ?_⟩, ⟨afterValue, ?_⟩, ?_, ?_⟩
  · exact (hread s none path (by decide +kernel)).trans hwhole
  · exact (hread s (some .key) ofKey (by decide +kernel)).trans hkey
  · exact (hread untagged (some .value) _ (by decide +kernel)).trans hvalue
  · obtain ⟨-, -, -, -, hshown, -⟩ :=
      evaluatePathIn_storage frame context (memory (shared.clear .zero)) s keyHash
    have hnone : (shared.clear .zero).entries .zero = [] := by
      simp only [Storage.entries, Storage.contract_clear]
      rfl
    exact (hshown rfl).1.2 (by simp [memory, context, hnone])
  · obtain ⟨-, -, -, hblind, -⟩ :=
      evaluatePathIn_storage blind context (memory shared) s keyHash
    exact hblind rfl

end Frame
end ScriptScope
