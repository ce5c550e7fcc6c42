import ScriptScope.Instruction

/-!
# ScriptScope.Proofs.Script.Reading

Reading a script loses nothing. `readOperand` reads exactly what `encode` writes, with anything
behind it (`readOperand_encode`, `readOperand_sound`), and gives up only when bytes are missing
(`readOperand_error`).

`Reads` is the relation beside `listFrom`: a reading is done at the end of the bytes, is cut off in
the middle of an instruction, or goes on behind an instruction. Everything about whole scripts is an
induction on it.

* `list_tiles`: the instructions of a script stand one behind the other from its first byte on and
  write back to the script as far as it can be read; only the last item can be a fault, and the
  fault says where the script is cut off. A cursor gives these items and then nothing, for ever.
-/

namespace ScriptScope

/-- Where a fault was met. -/
def DecodeError.position : DecodeError → Nat
  | .truncated position _ _ _ => position
  | .outOfRange position _ => position

namespace Instruction

theorem operandWidth_eq_of_admits {opcode : Opcode} {n : Nat} (h : opcode.Admits n) :
    opcode.operandWidth (Bytes.toLittleEndian opcode.prefixWidth n) = n := by
  unfold Opcode.Admits at h
  unfold Opcode.operandWidth Opcode.prefixWidth
  split at h <;> simp_all [Bytes.ofLittleEndian_toLittleEndian]

theorem admits_operandWidth (opcode : Opcode) {length : Bytes}
    (h : length.length = opcode.prefixWidth) :
    opcode.Admits (opcode.operandWidth length) ∧
      Bytes.toLittleEndian opcode.prefixWidth (opcode.operandWidth length) = length := by
  unfold Opcode.Admits Opcode.operandWidth
  unfold Opcode.prefixWidth at h ⊢
  split at h
  · next width hl =>
    subst h
    simp only [hl]
    exact ⟨Bytes.ofLittleEndian_lt length, Bytes.toLittleEndian_ofLittleEndian length⟩
  · next hl =>
    have : length = [] := List.length_eq_zero_iff.1 h
    subst this
    cases hop : opcode.layout with
    | fixed width => exact ⟨rfl, rfl⟩
    | inline => exact ⟨rfl, rfl⟩
    | prefixed width => exact absurd hop (hl width)

/-- Reading is complete: what was written is read, whatever comes behind it. -/
theorem readOperand_encode (position : Nat) {opcode : Opcode} {operand : Bytes}
    (fits : opcode.Admits operand.length) (tail : Bytes) :
    readOperand position opcode
        (Bytes.toLittleEndian opcode.prefixWidth operand.length ++ operand ++ tail) =
      .ok ⟨position, opcode, operand⟩ := by
  have hw := operandWidth_eq_of_admits fits
  simp [readOperand, hw]

/-- Reading is sound: what is read was written in front of what is left. -/
theorem readOperand_sound {position : Nat} {opcode : Opcode} {rest : Bytes} {i : Instruction}
    (h : readOperand position opcode rest = .ok i) :
    i.position = position ∧ i.opcode = opcode ∧ opcode.Admits i.operand.length ∧
      opcode.value :: rest = i.encode ++ rest.drop (i.size - 1) := by
  simp only [readOperand] at h
  split at h
  · cases h
  next hlen =>
  split at h
  · cases h
  next hwidth =>
  cases h
  -- neither check failed, so both pieces are as long as they were asked for
  have hp : (rest.take opcode.prefixWidth).length = opcode.prefixWidth := by
    have := List.length_take_le opcode.prefixWidth rest
    omega
  obtain ⟨hadm, hback⟩ := admits_operandWidth opcode hp
  generalize hw : opcode.operandWidth (rest.take opcode.prefixWidth) = width at *
  have ho : ((rest.drop opcode.prefixWidth).take width).length = width := by
    have := List.length_take_le width (rest.drop opcode.prefixWidth)
    omega
  refine ⟨rfl, rfl, by rw [ho]; exact hadm, ?_⟩
  have hsize : 1 + opcode.prefixWidth + width - 1 = opcode.prefixWidth + width := by omega
  simp only [encode, size, ho, hback, hsize, List.cons_append, List.append_assoc]
  rw [← List.drop_drop, List.take_append_drop, List.take_append_drop]

theorem readOperand_error {position : Nat} {opcode : Opcode} {rest : Bytes} {e : DecodeError}
    (h : readOperand position opcode rest = .error e) :
    ∃ needed, e = .truncated position opcode needed rest.length ∧ rest.length < needed := by
  simp only [readOperand] at h
  split at h
  · next hlen =>
    cases h
    rw [List.length_take] at hlen
    exact ⟨_, rfl, by omega⟩
  next hlen =>
  split at h
  · next hwidth =>
    cases h
    refine ⟨_, rfl, ?_⟩
    simp only [List.length_take, List.length_drop] at hlen hwidth
    omega
  · cases h

/-- How the bytes at a position are read: to their end, or to an instruction that is cut off. -/
inductive Reads : Nat → Bytes → List (Except DecodeError Instruction) → Prop where
  | done {position : Nat} : Reads position [] []
  | cut {position needed : Nat} {opcode : Opcode} {rest : Bytes} :
      rest.length < needed →
      readOperand position opcode rest =
        .error (.truncated position opcode needed rest.length) →
      Reads position (opcode.value :: rest)
        [.error (.truncated position opcode needed rest.length)]
  | more {i : Instruction} {tail : Bytes} {items : List (Except DecodeError Instruction)} :
      i.opcode.Admits i.operand.length → Reads i.next tail items →
      Reads i.position (i.encode ++ tail) (.ok i :: items)

theorem reads_listFrom (position : Nat) (bs : Bytes) :
    Reads position bs (listFrom position bs) := by
  fun_induction listFrom position bs with
  | case1 => exact .done
  | case2 position b rest e he =>
    obtain ⟨needed, rfl, hlt⟩ := readOperand_error he
    exact @Reads.cut position needed ⟨b⟩ rest hlt he
  | case3 position b rest i hi ih =>
    obtain ⟨rfl, hop, hadm, hbytes⟩ := readOperand_sound hi
    rw [show b :: rest = i.encode ++ rest.drop (i.size - 1) from hbytes]
    exact .more (hop ▸ hadm) ih

namespace Reads

variable {position : Nat} {bs : Bytes} {items : List (Except DecodeError Instruction)}

/-- Where an item of a reading stands. -/
def place : Except DecodeError Instruction → Nat
  | .ok i => i.position
  | .error e => e.position

theorem length_le (h : Reads position bs items) : items.length ≤ bs.length := by
  induction h with
  | done => simp
  | cut => simp
  | @more i _ _ _ _ ih =>
    have := i.size_pos
    simp only [List.length_cons, List.length_append, length_encode]
    omega

theorem place_head (h : Reads position bs items) :
    ∀ item ∈ items.head?, place item = position := by
  cases h <;> simp [place, DecodeError.position]

theorem place_next (h : Reads position bs items) :
    ∀ (k : Nat) (i : Instruction) (item : Except DecodeError Instruction),
      items[k]? = some (.ok i) → items[k + 1]? = some item → place item = i.next := by
  induction h with
  | done => intro k i item hk; simp at hk
  | cut => intro k i item _ hn; simp at hn
  | @more j tail items hadm hr ih =>
    intro k i item hk hn
    cases k with
    | zero =>
      obtain rfl : j = i := by simpa using hk
      rw [List.getElem?_cons_succ, ← List.head?_eq_getElem?] at hn
      exact hr.place_head item hn
    | succ k => exact ih k i item (by simpa using hk) (by simpa using hn)

theorem decode_place (h : Reads position bs items) (front : Bytes)
    (hfront : front.length = position) :
    ∀ item ∈ items, decode (front ++ bs) (place item) = item := by
  induction h generalizing front with
  | done => simp
  | @cut position needed opcode rest hlt he =>
    intro item hm
    obtain rfl := List.mem_singleton.1 hm
    subst hfront
    simp only [place, DecodeError.position, decode, List.drop_left]
    exact he
  | @more i tail items hadm hr ih =>
    intro item hm
    rcases List.mem_cons.1 hm with rfl | hm
    · simp only [place, ← hfront, decode, List.drop_left, encode, List.cons_append]
      rw [readOperand_encode front.length hadm tail, hfront]
    · rw [← List.append_assoc]
      exact ih (front ++ i.encode) (by simp [hfront, next]) item hm

/-- What is read, written again, is the bytes as far as they are read; what is left is nothing, or
begins with the opcode that is cut off. -/
theorem split (h : Reads position bs items) :
    ∃ (read : List Instruction) (fault : Option DecodeError) (left : Bytes),
      items = read.map .ok ++ (fault.map .error).toList ∧
      (∀ i ∈ read, i.opcode.Admits i.operand.length) ∧
      bs = read.flatMap encode ++ left ∧ (fault = none → left = []) ∧
      ∀ e ∈ fault, ∃ opcode needed rest, left = opcode.value :: rest ∧ rest.length < needed ∧
        e = .truncated (position + (read.flatMap encode).length) opcode needed rest.length := by
  induction h with
  | done => exact ⟨[], none, [], by simp⟩
  | @cut position needed opcode rest hlt he =>
    refine ⟨[], some (.truncated position opcode needed rest.length), opcode.value :: rest,
      rfl, by simp, rfl, by simp, ?_⟩
    rintro e he
    obtain rfl := Option.mem_some_iff.1 he
    exact ⟨opcode, needed, rest, rfl, hlt, rfl⟩
  | @more i tail items hadm hr ih =>
    obtain ⟨read, fault, left, hitems, hall, hbs, hnone, hfault⟩ := ih
    refine ⟨i :: read, fault, left, by simp [hitems], ?_, by simp [hbs], hnone, ?_⟩
    · intro j hj
      rcases List.mem_cons.1 hj with rfl | hj
      · exact hadm
      · exact hall j hj
    · intro e he
      obtain ⟨opcode, needed, rest, hleft, hlt, rfl⟩ := hfault e he
      refine ⟨opcode, needed, rest, hleft, hlt, ?_⟩
      simp only [List.flatMap_cons, List.length_append, length_encode, next, Nat.add_assoc]

end Reads
end Instruction

namespace Cursor

/-- Asks for the next item; at the end nothing changes. -/
def call (c : Cursor) : Option (Except DecodeError Instruction) × Cursor :=
  match c.next? with
  | none => (none, c)
  | some (item, c') => (some item, c')

/-- The answers to `n` calls, one after the other. -/
def answers : Nat → Cursor → List (Option (Except DecodeError Instruction))
  | 0, _ => []
  | n + 1, c => c.call.1 :: answers n c.call.2

theorem answers_eq (n : Nat) (c : Cursor) :
    c.answers n = (c.toList.map some ++ List.replicate n none).take n := by
  induction n generalizing c with
  | zero => simp [answers]
  | succ n ih =>
    rw [answers, toList_eq]
    cases hn : c.next? with
    | none =>
      have hc : c.toList = [] := by rw [toList_eq, hn]
      simp [call, hn, ih, hc, List.replicate_succ]
    | some found =>
      obtain ⟨item, c'⟩ := found
      simp only [call, hn, ih, List.map_cons, List.cons_append, List.take_succ_cons]
      have hlong : n ≤ (c'.toList.map some ++ List.replicate n none).length := by simp
      rw [List.replicate_succ', ← List.append_assoc, List.take_append_of_le_length hlong]

end Cursor

namespace Instruction

theorem list_tiles (script : Bytes) :
    ∃ (read : List Instruction) (fault : Option DecodeError),
      list script = read.map .ok ++ (fault.map .error).toList ∧
      (list script).length ≤ script.length ∧
      (∀ item ∈ (list script).head?, Reads.place item = 0) ∧
      (∀ (k : Nat) (i : Instruction) (item : Except DecodeError Instruction),
        (list script)[k]? = some (.ok i) → (list script)[k + 1]? = some item →
          Reads.place item = i.next) ∧
      (∀ item ∈ list script, decode script (Reads.place item) = item) ∧
      (∀ i ∈ read, i.opcode.Admits i.operand.length) ∧
      read.flatMap encode = script.take ((fault.map DecodeError.position).getD script.length) ∧
      (∀ e ∈ fault, ∃ position opcode needed available,
        e = .truncated position opcode needed available ∧
        script[position]? = some opcode.value ∧
        position + 1 + available = script.length ∧ available < needed) ∧
      ∀ n, (Cursor.start script).answers n =
        ((list script).map some ++ List.replicate n none).take n := by
  have h : Reads 0 script (list script) := reads_listFrom 0 script
  obtain ⟨read, fault, left, hitems, hall, hbs, hnone, hfault⟩ := h.split
  refine ⟨read, fault, hitems, h.length_le, h.place_head, h.place_next,
    h.decode_place [] rfl, hall, ?_, ?_, fun n => Cursor.answers_eq n _⟩
  · cases fault with
    | none =>
      rw [hnone rfl, List.append_nil] at hbs
      rw [← hbs]
      simp
    | some e =>
      obtain ⟨opcode, needed, rest, hleft, hlt, rfl⟩ := hfault e rfl
      conv => rhs; rw [hbs]
      simp [DecodeError.position]
  · intro e he
    obtain ⟨opcode, needed, rest, hleft, hlt, rfl⟩ := hfault e he
    refine ⟨_, opcode, needed, rest.length, rfl, ?_, ?_, hlt⟩
    · rw [hbs, hleft, Nat.zero_add, List.getElem?_append_right (Nat.le_refl _)]
      simp
    · have := congrArg List.length hbs
      rw [hleft, List.length_append, List.length_cons] at this
      omega

end Instruction
end ScriptScope
