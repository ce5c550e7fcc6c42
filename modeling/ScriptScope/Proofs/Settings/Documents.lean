import Mathlib.Data.List.Perm.Basic
import ScriptScope.Command
import ScriptScope.Proofs.Toml.Scalars
import ScriptScope.Proofs.Toml.Tables

/-!
# ScriptScope.Proofs.Settings.Documents

Files of settings that are lines `key = value`. Each line is read by itself (`Entry.Writes`), and
its pair is found whatever the order of the lines.

* `statements?_document`: the lines of a document give their pairs, by induction on the lines.
* `load?_document`: the settings that are written are loaded, the others keep their defaults, and
  other keys are passed over.
* `load?_save`: so settings are loaded as they were saved.
-/

namespace ScriptScope
namespace Settings

open Toml

/-! ## Lines -/

/-- A line of a file of settings: a key and a value, as they are written. -/
structure Entry where
  key : String
  value : String
deriving DecidableEq, Repr

namespace Entry

def chars (e : Entry) : List Char :=
  lineText e.key e.value.toList

/-- The line has the key and the value of a pair, and they may stand in a document. -/
structure Writes (e : Entry) (pair : KeyPath × Value) : Prop where
  key : key? e.key.toList = some (pair.1, [])
  value : ∃ fuel, value? fuel maxDepth e.value.toList = some (pair.2, [])
  sound : pair.2.isSound = true

theorem chars_append (e : Entry) (tail : List Char) :
    e.chars ++ tail = e.key.toList ++ ' ' :: '=' :: ' ' :: (e.value.toList ++ '\n' :: tail) := by
  simp [chars, lineText]

end Entry

/-- The text of lines that stand one below the other. -/
def document (entries : List Entry) : String :=
  String.ofList (entries.flatMap Entry.chars)

section

variable {c : Char} {more : List Char}

theorem ne_of_opensKey (h : opensKey c = true) {d : Char} (hd : opensKey d = false) : c ≠ d := by
  rintro rfl
  rw [hd] at h
  cases h

theorem skipSpace_of_opensKey (h : opensKey c = true) : skipSpace (c :: more) = c :: more := by
  apply skipSpace_of_stops
  rintro d ⟨⟩
  simp [isSpace, ne_of_opensKey h (d := ' ') rfl, ne_of_opensKey h (d := '\t') rfl]

theorem endLine?_of_opensKey (h : opensKey c = true) : endLine? (c :: more) = none := by
  have hcomment : c ≠ '#' := ne_of_opensKey h rfl
  have hbreak : c ≠ '\n' := ne_of_opensKey h rfl
  have hreturn : c ≠ '\r' := ne_of_opensKey h rfl
  simp [endLine?, skipSpace_of_opensKey h, hcomment, hbreak, hreturn]

theorem statement?_of_opensKey (h : opensKey c = true) (fuel : Nat) :
    statement? fuel (c :: more) =
      (linePair? fuel (c :: more)).map fun ((key, value), rest) => (.pair key value, rest) := by
  have hbracket : c ≠ '[' := ne_of_opensKey h rfl
  rw [statement?]
  · rintro rest heq
    exact hbracket (List.cons.inj heq).1
  · rintro rest heq
    exact hbracket (List.cons.inj heq).1

theorem dropMark_of_opensKey (h : opensKey c = true) : dropMark (c :: more) = c :: more := by
  have hmark : c ≠ '\uFEFF' := ne_of_opensKey h rfl
  rw [dropMark]
  rintro rest heq
  exact hmark (List.cons.inj heq).1

end

namespace Entry

variable {e : Entry} {pair : KeyPath × Value}

theorem Writes.exists_head (h : e.Writes pair) (tail : List Char) :
    ∃ c more, e.chars ++ tail = c :: more ∧ opensKey c = true := by
  obtain ⟨c, more, hkey, hc⟩ := keyOf?_head h.key
  exact ⟨c, _, by rw [chars_append, hkey]; rfl, hc⟩

theorem Writes.linePair? (h : e.Writes pair) (tail : List Char) {fuel : Nat}
    (hfuel : (e.chars ++ tail).length < fuel) :
    linePair? fuel (e.chars ++ tail) = some (pair, '\n' :: tail) := by
  obtain ⟨enough, hvalue⟩ := h.value
  let behind := ' ' :: (e.value.toList ++ '\n' :: tail)
  have hkey : key? (e.chars ++ tail) = some (pair.1, '=' :: behind) := by
    have hbare : Stops isBare (' ' :: '=' :: behind) := by
      rintro c ⟨⟩
      rfl
    have hdot : ∀ deeper, skipSpace (' ' :: '=' :: behind) = '.' :: deeper → False := by
      rintro deeper ⟨⟩
    rw [chars_append]
    exact (keyOf?_append hbare hdot h.key).2
  have hskip : skipSpace behind = e.value.toList ++ '\n' :: tail := by
    obtain ⟨c, more, hcs, hspace, -⟩ := starts_of_value? hvalue
    have hstops : Stops isSpace (e.value.toList ++ '\n' :: tail) := by
      rw [hcs]
      rintro d ⟨⟩
      exact hspace
    exact skipSpace_of_stops hstops
  have hlength : e.value.toList.length < fuel + ([] : List Char).length := by
    rw [chars_append, List.length_append, List.length_cons, List.length_cons, List.length_cons,
      List.length_append] at hfuel
    rw [List.length_nil]
    omega
  simp only [Toml.linePair?, hkey, hskip, value?_append hvalue tail hlength, Option.map_some]
  rfl

end Entry

/-- The induction is on the lines; each is told from a blank line and from a header by its key. -/
theorem statements?_document {entries : List Entry} {pairs : List (KeyPath × Value)}
    (h : List.Forall₂ Entry.Writes entries pairs) {fuel : Nat}
    (hfuel : (entries.flatMap Entry.chars).length < fuel) :
    statements? fuel (entries.flatMap Entry.chars) = some (pairStatements pairs) := by
  induction h generalizing fuel with
  | nil =>
    cases fuel with
    | zero => exact absurd hfuel (Nat.not_lt_zero _)
    | succ fuel => rfl
  | @cons e pair entries pairs he _ ih =>
    rw [List.flatMap_cons] at hfuel ⊢
    generalize hrest : entries.flatMap Entry.chars = rest at hfuel ih ⊢
    obtain ⟨c, more, hcs, hc⟩ := he.exists_head rest
    have hpair := he.linePair? rest (Nat.lt_add_one _)
    obtain ⟨less, rfl⟩ : ∃ less, fuel = less + 1 := ⟨fuel - 1, by omega⟩
    have hlength : rest.length < less := by
      have hpos : 0 < e.chars.length := by
        rw [Entry.chars, lineText, List.length_append]
        exact Nat.succ_pos _
      rw [List.length_append] at hfuel
      omega
    rw [hcs] at hpair ⊢
    rw [statements?, endLine?_of_opensKey hc]
    · have hbreak : endLine? ('\n' :: rest) = some rest := rfl
      simp only [skipSpace_of_opensKey hc, statement?_of_opensKey hc, hpair, hbreak, ih hlength,
        Option.map_some, Option.bind_some]
      rfl
    · exact List.cons_ne_nil _ _

theorem read_document {entries : List Entry} {pairs : List (KeyPath × Value)}
    (h : List.Forall₂ Entry.Writes entries pairs) :
    read (document entries) = build (pairStatements pairs) := by
  have hmark : dropMark (entries.flatMap Entry.chars) = entries.flatMap Entry.chars := by
    cases h with
    | nil => rfl
    | @cons e pair entries pairs he _ =>
      obtain ⟨c, more, hcs, hc⟩ := he.exists_head (entries.flatMap Entry.chars)
      rw [List.flatMap_cons, hcs, dropMark_of_opensKey hc]
  rw [Toml.read, document, String.toList_ofList, hmark,
    statements?_document h (Nat.lt_succ_self _), Option.bind_some]

theorem sound_of_writes {entries : List Entry} {pairs : List (KeyPath × Value)}
    (h : List.Forall₂ Entry.Writes entries pairs) : ∀ p ∈ pairs, p.2.isSound = true := by
  induction h with
  | nil => exact List.forall_mem_nil _
  | cons he _ ih => exact List.forall_mem_cons.2 ⟨he.sound, ih⟩

/-! ## Settings that are written and settings that are not -/

def keys : List String :=
  ["address_width", "hash_storage_buffers", "max_byte_children", "show_alt_stack"]

/-- Settings of which some are written. -/
structure Partial where
  addressWidth : Option Nat
  hashStorageBuffers : Option Bool
  maxByteChildren : Option Nat
  showAltStack : Option Bool
deriving DecidableEq, Repr

namespace Partial

/-- Whether the numbers fit their sixty-four bits. -/
def Fits (w : Partial) : Prop :=
  (∀ n ∈ w.addressWidth, n < Decimal.limit64) ∧ ∀ n ∈ w.maxByteChildren, n < Decimal.limit64

/-- What is written, and the defaults for the rest. -/
def settings (w : Partial) : Settings :=
  let defaults : Settings := {}
  { addressWidth := w.addressWidth.getD defaults.addressWidth
    hashStorageBuffers := w.hashStorageBuffers.getD defaults.hashStorageBuffers
    maxByteChildren := w.maxByteChildren.getD defaults.maxByteChildren
    showAltStack := w.showAltStack.getD defaults.showAltStack }

/-- The pair that writes a value, if there is one. -/
def written (key : String) (value? : Option Value) : List (KeyPath × Value) :=
  (value?.map fun value => (⟨[], key⟩, value)).toList

/-- The pairs that write what is written. -/
def pairs (w : Partial) : List (KeyPath × Value) :=
  written "address_width" (w.addressWidth.map fun n : Nat => .integer n) ++
    written "hash_storage_buffers" (w.hashStorageBuffers.map .bool) ++
    written "max_byte_children" (w.maxByteChildren.map fun n : Nat => .integer n) ++
    written "show_alt_stack" (w.showAltStack.map .bool)

theorem mem_pairs {w : Partial} {p : KeyPath × Value} :
    p ∈ w.pairs ↔ ((p ∈ written "address_width" (w.addressWidth.map fun n : Nat => .integer n) ∨
      p ∈ written "hash_storage_buffers" (w.hashStorageBuffers.map .bool)) ∨
      p ∈ written "max_byte_children" (w.maxByteChildren.map fun n : Nat => .integer n)) ∨
      p ∈ written "show_alt_stack" (w.showAltStack.map .bool) := by
  rw [pairs, List.mem_append, List.mem_append, List.mem_append]

/-- All settings written. -/
def whole (s : Settings) : Partial :=
  ⟨s.addressWidth, s.hashStorageBuffers, s.maxByteChildren, s.showAltStack⟩

theorem settings_whole (s : Settings) : (whole s).settings = s := rfl

theorem fits_whole {s : Settings} (h : s.Fits) : (whole s).Fits := by
  constructor
  · rintro n ⟨⟩
    exact h.1
  · rintro n ⟨⟩
    exact h.2

theorem map_fst_written_sublist (key : String) (value? : Option Value) :
    ((written key value?).map Prod.fst).Sublist [⟨[], key⟩] := by
  cases value? with
  | none => exact List.nil_sublist _
  | some value => exact List.Sublist.refl _

/-- The keys that are written, in the order of all keys. -/
theorem map_fst_pairs_sublist (w : Partial) :
    (w.pairs.map Prod.fst).Sublist (keys.map fun key => ⟨[], key⟩) := by
  rw [pairs, List.map_append, List.map_append, List.map_append]
  exact (((map_fst_written_sublist _ _).append (map_fst_written_sublist _ _)).append
    (map_fst_written_sublist _ _)).append (map_fst_written_sublist _ _)

theorem key_of_mem_pairs {w : Partial} {p : KeyPath × Value} (h : p ∈ w.pairs) :
    p.1.parents = [] ∧ p.1.last ∈ keys := by
  have hmem := w.map_fst_pairs_sublist.subset (List.mem_map_of_mem h)
  obtain ⟨key, hkey, hp⟩ := List.mem_map.1 hmem
  rw [← hp]
  exact ⟨rfl, hkey⟩

theorem key_of_mem_written {key : String} {value? : Option Value} {p : KeyPath × Value}
    (h : p ∈ written key value?) : p.1.last = key ∧ value? ≠ none := by
  cases value? with
  | none => cases h
  | some value =>
    obtain rfl := List.mem_singleton.1 h
    exact ⟨rfl, Option.some_ne_none value⟩

/-- A setting that is not written has no pair. -/
theorem last_ne_of_mem_pairs {w : Partial} {p : KeyPath × Value} (h : p ∈ w.pairs) :
    (w.addressWidth = none → p.1.last ≠ "address_width") ∧
      (w.hashStorageBuffers = none → p.1.last ≠ "hash_storage_buffers") ∧
      (w.maxByteChildren = none → p.1.last ≠ "max_byte_children") ∧
      (w.showAltStack = none → p.1.last ≠ "show_alt_stack") := by
  rcases mem_pairs.1 h with ((h | h) | h) | h
  all_goals
    obtain ⟨hkey, hsome⟩ := key_of_mem_written h
    rw [ne_eq, Option.map_eq_none_iff] at hsome
    simp [hkey, hsome]

theorem pairwise_apart_pairs (w : Partial) : w.pairs.Pairwise fun p q => p.1.Apart q.1 := by
  have hnodup : keys.Nodup := by decide
  have hkeys : (keys.map fun key => (⟨[], key⟩ : KeyPath)).Pairwise KeyPath.Apart :=
    List.pairwise_map.2 (hnodup.imp fun hne => KeyPath.apart_key_iff.2 hne.symm)
  exact List.pairwise_map.1 (hkeys.sublist w.map_fst_pairs_sublist)

end Partial

section Tables

variable {entries : Entries} {key : String}

theorem numberAt?_eq {n? : Option Nat} (hfits : ∀ n ∈ n?, n < Decimal.limit64)
    (hfound : ∀ p ∈ Partial.written key (n?.map fun n : Nat => .integer n),
      entries.find? p.1.last = some (.leaf p.2))
    (habsent : n? = none → entries.find? key = none) (default : Nat) :
    numberAt? entries key default = some (n?.getD default) := by
  cases n? with
  | none => rw [numberAt?, habsent rfl]; rfl
  | some n =>
    have hkey : entries.find? key = some (.leaf (.integer n)) :=
      hfound _ (List.mem_singleton_self _)
    have hlt : 0 ≤ (n : Int) ∧ (n : Int) < Decimal.limit64 :=
      ⟨Int.natCast_nonneg n, Int.ofNat_lt.2 (hfits n rfl)⟩
    rw [numberAt?, hkey]
    simp only [if_pos hlt]
    rfl

theorem flagAt?_eq {b? : Option Bool}
    (hfound : ∀ p ∈ Partial.written key (b?.map .bool), entries.find? p.1.last = some (.leaf p.2))
    (habsent : b? = none → entries.find? key = none) (default : Bool) :
    flagAt? entries key default = some (b?.getD default) := by
  cases b? with
  | none => rw [flagAt?, habsent rfl]; rfl
  | some b =>
    have hkey : entries.find? key = some (.leaf (.bool b)) := hfound _ (List.mem_singleton_self _)
    rw [flagAt?, hkey]
    rfl

/-- Tables with the pairs of what is written, and nothing under the other keys. -/
theorem ofEntries?_eq {w : Partial} (hfits : w.Fits)
    (hfound : ∀ p ∈ w.pairs, entries.find? p.1.last = some (.leaf p.2))
    (habsent : ∀ key ∈ keys, (∀ p ∈ w.pairs, p.1.last ≠ key) → entries.find? key = none) :
    ofEntries? entries = some w.settings := by
  simp only [Partial.mem_pairs, or_imp, forall_and] at hfound
  obtain ⟨⟨⟨hwidth, hhash⟩, hbytes⟩, hstack⟩ := hfound
  have haddressWidth := numberAt?_eq hfits.1 hwidth
    (fun h => habsent "address_width" (by decide) fun p hp =>
      (Partial.last_ne_of_mem_pairs hp).1 h)
  have hhashStorageBuffers := flagAt?_eq hhash
    (fun h => habsent "hash_storage_buffers" (by decide) fun p hp =>
      (Partial.last_ne_of_mem_pairs hp).2.1 h)
  have hmaxByteChildren := numberAt?_eq hfits.2 hbytes
    (fun h => habsent "max_byte_children" (by decide) fun p hp =>
      (Partial.last_ne_of_mem_pairs hp).2.2.1 h)
  have hshowAltStack := flagAt?_eq hstack
    (fun h => habsent "show_alt_stack" (by decide) fun p hp =>
      (Partial.last_ne_of_mem_pairs hp).2.2.2 h)
  simp only [ofEntries?, haddressWidth, hhashStorageBuffers, hmaxByteChildren, hshowAltStack]
  rfl

end Tables

/-! ## Files -/

section

variable {w : Partial} {known extra lines : List Entry} {others : List (KeyPath × Value)}

/-- No key of a setting leads through another key, nor another one through it. -/
theorem pairwise_apart_append (hapart : others.Pairwise fun p q => p.1.Apart q.1)
    (hother : ∀ p ∈ others, p.1.first ∉ keys) :
    (w.pairs ++ others).Pairwise fun p q => p.1.Apart q.1 := by
  refine List.pairwise_append.2 ⟨w.pairwise_apart_pairs, hapart, ?_⟩
  rintro ⟨⟨parents, last⟩, value⟩ hp q hq
  obtain ⟨hparents, hlast⟩ := Partial.key_of_mem_pairs hp
  obtain rfl : parents = [] := hparents
  refine KeyPath.apart_key_iff.2 fun heq => ?_
  exact hother q hq (heq ▸ hlast)

/-- The pairs come in the order of their lines; they are found whatever that order is. -/
theorem load?_document (hfits : w.Fits) (hknown : List.Forall₂ Entry.Writes known w.pairs)
    (hextra : List.Forall₂ Entry.Writes extra others)
    (hapart : others.Pairwise fun p q => p.1.Apart q.1)
    (hother : ∀ p ∈ others, p.1.first ∉ keys) (hlines : lines.Perm (known ++ extra)) :
    load? (document lines) = some w.settings := by
  obtain ⟨pairs, hwrites, hpairs⟩ :=
    List.perm_comp_forall₂ hlines (List.rel_append hknown hextra)
  have hpairwise : pairs.Pairwise fun p q => p.1.Apart q.1 :=
    (pairwise_apart_append hapart hother).perm hpairs.symm KeyPath.Apart.symm
  obtain ⟨built, hbuilt, hfound, habsent⟩ := exists_build (sound_of_writes hwrites) hpairwise
  have hsettings : ofEntries? built = some w.settings := by
    refine ofEntries?_eq hfits (fun p hp => ?_) (fun key hkey hne => ?_)
    · have hmem : p ∈ pairs := hpairs.mem_iff.2 (List.mem_append_left _ hp)
      exact hfound p hmem (Partial.key_of_mem_pairs hp).1
    · refine habsent key fun p hp => ?_
      rcases List.mem_append.1 (hpairs.mem_iff.1 hp) with hp | hp
      · rw [KeyPath.first, (Partial.key_of_mem_pairs hp).1]
        exact hne p hp
      · rintro rfl
        exact hother p hp hkey
  rw [load?, read_document hwrites, hbuilt, Option.bind_some, hsettings]

end

/-- The lines that all settings are saved in. -/
def saved (s : Settings) : List Entry :=
  [⟨"address_width", String.ofList (Decimal.digits s.addressWidth)⟩,
    ⟨"hash_storage_buffers", String.ofList (flagChars s.hashStorageBuffers)⟩,
    ⟨"max_byte_children", String.ofList (Decimal.digits s.maxByteChildren)⟩,
    ⟨"show_alt_stack", String.ofList (flagChars s.showAltStack)⟩]

theorem save_eq (s : Settings) : s.save = document s.saved := by
  simp [save, document, saved, Entry.chars]

theorem writes_number {key : String} (hkey : key? key.toList = some (⟨[], key⟩, [])) {n : Nat}
    (hn : n < Decimal.limit64) :
    Entry.Writes ⟨key, String.ofList (Decimal.digits n)⟩ (⟨[], key⟩, .integer n) where
  key := hkey
  value := ⟨1, by rw [String.toList_ofList, value?_digits]⟩
  sound := isSound_integer hn

theorem value?_flagChars (b : Bool) :
    value? 1 maxDepth (flagChars b) = some (.bool b, []) := by
  have hscalar : (flagChars b).all isScalar = true := by cases b <;> decide
  have hbool : scalar? (flagChars b) = some (.bool b) := by cases b <;> rfl
  rw [value?_word hscalar, hbool]
  rfl

theorem writes_flag {key : String} (hkey : key? key.toList = some (⟨[], key⟩, [])) (b : Bool) :
    Entry.Writes ⟨key, String.ofList (flagChars b)⟩ (⟨[], key⟩, .bool b) where
  key := hkey
  value := ⟨1, by rw [String.toList_ofList, value?_flagChars]⟩
  sound := rfl

theorem writes_saved {s : Settings} (h : s.Fits) :
    List.Forall₂ Entry.Writes s.saved (Partial.whole s).pairs :=
  .cons (writes_number (by decide +kernel) h.1) <|
    .cons (writes_flag (by decide +kernel) _) <|
      .cons (writes_number (by decide +kernel) h.2) <|
        .cons (writes_flag (by decide +kernel) _) .nil

theorem load?_save {s : Settings} (h : s.Fits) : load? s.save = some s := by
  have hlines : s.saved.Perm (s.saved ++ []) := by rw [List.append_nil]
  rw [save_eq, load?_document (Partial.fits_whole h) (writes_saved h) .nil .nil
    (List.forall_mem_nil _) hlines, Partial.settings_whole]

/-- Settings that were saved are loaded again, whatever numbers of sixty-four bits they hold. From
lines with some of the settings and with other keys, in any order, come what is written and the
defaults for the rest. -/
theorem loads_written :
    (∀ (s : Settings) (files : Command.Files) (path : String), s.Fits →
      files path = some (Utf8.encode s.save) → Command.loadSettings files path = .ok s) ∧
    ∀ (w : Partial) (known extra lines : List Entry) (others : List (KeyPath × Value)), w.Fits →
      List.Forall₂ Entry.Writes known w.pairs → List.Forall₂ Entry.Writes extra others →
      others.Pairwise (fun p q => p.1.Apart q.1) → (∀ p ∈ others, p.1.first ∉ keys) →
      lines.Perm (known ++ extra) → load? (document lines) = some w.settings := by
  constructor
  · intro s files path hfits hfile
    rw [Command.loadSettings, hfile]
    simp only [Utf8.decode?_encode, load?_save hfits]
  · intro w known extra lines others hfits hknown hextra hapart hother hlines
    exact load?_document hfits hknown hextra hapart hother hlines

/-- Two keys that are no settings, one of them dotted, stand among two settings out of their
order. -/
theorem loads_written_unordered :
    let s : Settings := ⟨18446744073709551615, false, 9223372036854775808, true⟩
    let lines : List Entry := [⟨"editor", "\x22vim\x22"⟩, ⟨"max_byte_children", "1_000"⟩,
      ⟨"\x22my editor\x22.tabs", "[true]"⟩, ⟨"address_width", "0x10"⟩]
    Command.loadSettings (fun _ => some (Utf8.encode s.save)) ".ndb.toml" = .ok s ∧
      load? (document lines) = some { addressWidth := 16, maxByteChildren := 1000 } := by
  intro s lines
  let w : Partial := ⟨some 16, none, some 1000, none⟩
  let editor : KeyPath × Value := (⟨[], "editor"⟩, .text "vim")
  let tabs : KeyPath × Value := (⟨["my editor"], "tabs"⟩, .array [.bool true])
  have hfits : w.Fits := ⟨by rintro n ⟨⟩; decide, by rintro n ⟨⟩; decide⟩
  have hwidth : Entry.Writes ⟨"address_width", "0x10"⟩ (⟨[], "address_width"⟩, .integer 16) :=
    ⟨by decide +kernel, ⟨1, by rw [value?_word (by decide)]; rfl⟩, by decide⟩
  have hbytes :
      Entry.Writes ⟨"max_byte_children", "1_000"⟩ (⟨[], "max_byte_children"⟩, .integer 1000) :=
    ⟨by decide +kernel, ⟨1, by rw [value?_word (by decide)]; rfl⟩, by decide⟩
  have htext : value? 1 maxDepth ['\x22', 'v', 'i', 'm', '\x22'] = some (editor.2, []) := by
    rw [value?, string?_basic (by rintro more ⟨⟩)]
    rfl
  have heditor : Entry.Writes ⟨"editor", "\x22vim\x22"⟩ editor :=
    ⟨by decide +kernel, ⟨1, htext⟩, rfl⟩
  have hitem : value? 1 79 ['t', 'r', 'u', 'e', ']'] = some (.bool true, [']']) := by
    rw [value?]
    · rfl
    all_goals rintro _ ⟨⟩
  have hitems : items? 2 79 ['t', 'r', 'u', 'e', ']'] = some ([.bool true], []) :=
    items?_eq_some_iff.2 (.last rfl (by simp) hitem rfl)
  have hvalue : value? 3 maxDepth ['[', 't', 'r', 'u', 'e', ']'] = some (tabs.2, []) := by
    rw [value?, if_neg (by decide)]
    exact congrArg _ hitems
  have htabs : Entry.Writes ⟨"\x22my editor\x22.tabs", "[true]"⟩ tabs :=
    ⟨by decide +kernel, ⟨3, hvalue⟩, by decide +kernel⟩
  have hapart : [editor, tabs].Pairwise fun p q => p.1.Apart q.1 := by
    simp [editor, tabs, KeyPath.apart_key_iff, KeyPath.first]
  have hfirst : ∀ p ∈ [editor, tabs], p.1.first ∉ keys := by
    simp [editor, tabs, keys, KeyPath.first]
  constructor
  · exact loads_written.1 s _ _ ⟨by decide, by decide⟩ rfl
  · exact loads_written.2 w [_, _] [_, _] lines [editor, tabs] hfits
      (.cons hwidth (.cons hbytes .nil)) (.cons heditor (.cons htabs .nil)) hapart hfirst
      (by decide)

end Settings
end ScriptScope
