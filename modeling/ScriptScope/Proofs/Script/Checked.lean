import Mathlib.Algebra.Group.Int.Defs
import Mathlib.Algebra.Group.Nat.Defs
import ScriptScope.Listing
import ScriptScope.Proofs.Script.Shortfall

/-!
# ScriptScope.Proofs.Script.Checked

Reading and annotating a script with words of sixty-four bits, where every sum and every slice is
checked. `none` stands for a check that fails: a sum that leaves its range, a slice that leaves its
bytes, a reading that does not advance.

The checks never fail on a script of at most `maxLength` bytes, and the results are those of the
functions over unbounded numbers.

* `toNat_number`: the length in front of an operand, put together by shifts, is the number that its
  bytes hold.
* `decode?_eq`: an instruction and the place behind it, at every position.
* `list?_eq`: the whole script.
* `line?_eq`: the line of an instruction, whose branch target is a signed sum.
-/

namespace ScriptScope
namespace Checked

/-- Bytes of the longest script for which the target of every branch is a signed word. -/
def maxLength : Nat := 2 ^ 63 - 2 ^ 16

/-! ## Words and slices -/

def add? (a b : UInt64) : Option UInt64 :=
  if a.toNat + b.toNat < UInt64.size then some (a + b) else none

/-- The sum, or the greatest word if the sum is greater. -/
def addSaturating (a b : UInt64) : UInt64 :=
  if a.toNat + b.toNat < UInt64.size then a + b else UInt64.ofNat (UInt64.size - 1)

/-- The word as a signed one. -/
def signed (n : UInt64) : Int :=
  if n.toNat < 2 ^ 63 then n.toNat else n.toNat - 2 ^ 64

def addSigned? (a b : Int) : Option Int :=
  if -2 ^ 63 ≤ a + b ∧ a + b < 2 ^ 63 then some (a + b) else none

def take? (n : UInt64) (bs : Bytes) : Option Bytes :=
  if n.toNat ≤ bs.length then some (bs.take n.toNat) else none

def drop? (n : UInt64) (bs : Bytes) : Option Bytes :=
  if n.toNat ≤ bs.length then some (bs.drop n.toNat) else none

/-- How many bytes there are. -/
def count (bs : Bytes) : UInt64 :=
  UInt64.ofNat bs.length

/-- The number whose bytes these are, the least significant first. -/
def number (bs : Bytes) : UInt64 :=
  bs.foldr (fun b high => high <<< 8 ||| b.toUInt64) 0

section

variable {m n : Nat} {bs : Bytes}

theorem add?_ofNat (h : m + n < UInt64.size) :
    add? (UInt64.ofNat m) (UInt64.ofNat n) = some (UInt64.ofNat (m + n)) := by
  have hm : (UInt64.ofNat m).toNat = m :=
    UInt64.toNat_ofNat_of_lt' (Nat.lt_of_le_of_lt (Nat.le_add_right m n) h)
  have hn : (UInt64.ofNat n).toNat = n :=
    UInt64.toNat_ofNat_of_lt' (Nat.lt_of_le_of_lt (Nat.le_add_left n m) h)
  rw [add?, hm, hn, if_pos h, UInt64.ofNat_add]

theorem addSaturating_ofNat (h : m + n < UInt64.size) :
    addSaturating (UInt64.ofNat m) (UInt64.ofNat n) = UInt64.ofNat (m + n) := by
  have hm : (UInt64.ofNat m).toNat = m :=
    UInt64.toNat_ofNat_of_lt' (Nat.lt_of_le_of_lt (Nat.le_add_right m n) h)
  have hn : (UInt64.ofNat n).toNat = n :=
    UInt64.toNat_ofNat_of_lt' (Nat.lt_of_le_of_lt (Nat.le_add_left n m) h)
  rw [addSaturating, hm, hn, if_pos h, UInt64.ofNat_add]

theorem signed_ofNat (h : n < 2 ^ 63) : signed (UInt64.ofNat n) = n := by
  have hsize : n < UInt64.size := Nat.lt_trans h (by decide)
  rw [signed, UInt64.toNat_ofNat_of_lt' hsize, if_pos h]

theorem addSigned?_eq {a b : Int} (hlow : -2 ^ 63 ≤ a + b) (hhigh : a + b < 2 ^ 63) :
    addSigned? a b = some (a + b) := if_pos ⟨hlow, hhigh⟩

theorem take?_ofNat (h : n < UInt64.size) (bs : Bytes) :
    take? (UInt64.ofNat n) bs = if n ≤ bs.length then some (bs.take n) else none := by
  rw [take?, UInt64.toNat_ofNat_of_lt' h]

theorem drop?_ofNat (h : n < UInt64.size) (bs : Bytes) :
    drop? (UInt64.ofNat n) bs = if n ≤ bs.length then some (bs.drop n) else none := by
  rw [drop?, UInt64.toNat_ofNat_of_lt' h]

theorem ofLittleEndian_lt_pow (h : bs.length ≤ n) : Bytes.ofLittleEndian bs < 256 ^ n :=
  Nat.lt_of_lt_of_le (Bytes.ofLittleEndian_lt bs) (Nat.pow_le_pow_right (by decide) h)

/-- A shift by one byte loses nothing if the topmost byte is empty. -/
theorem toNat_shiftLeft_eight {word : UInt64} (h : word.toNat < 256 ^ 7) :
    (word <<< 8).toNat = word.toNat <<< 8 := by
  have height : (8 : UInt64).toNat % 64 = 8 := rfl
  rw [UInt64.toNat_shiftLeft, height, Nat.shiftLeft_eq]
  omega

/-- The induction takes the bytes from the most significant end, as the shifts do. -/
theorem toNat_number (h : bs.length ≤ 8) : (number bs).toNat = Bytes.ofLittleEndian bs := by
  induction bs with
  | nil => rfl
  | cons b rest ih =>
    have hrest : rest.length ≤ 7 := Nat.le_of_succ_le_succ h
    have hhigh := ih (Nat.le_succ_of_le hrest)
    have hlt : (number rest).toNat < 256 ^ 7 := by
      rw [hhigh]
      exact ofLittleEndian_lt_pow hrest
    have hbyte : b.toNat < 2 ^ 8 := b.toNat_lt
    have hnumber : number (b :: rest) = number rest <<< 8 ||| b.toUInt64 := rfl
    rw [hnumber, UInt64.toNat_or, toNat_shiftLeft_eight hlt, UInt8.toNat_toUInt64, hhigh,
      ← Nat.shiftLeft_add_eq_or_of_lt hbyte, Nat.shiftLeft_eq, Bytes.ofLittleEndian]
    omega

end

/-! ## Reading -/

/-- Bytes of the whole instruction. -/
def size? (i : Instruction) : Option UInt64 :=
  (add? 1 (UInt64.ofNat i.opcode.prefixWidth)).bind fun front => add? front (count i.operand)

def next? (position : UInt64) (i : Instruction) : Option UInt64 :=
  (size? i).bind (add? position)

section

variable (position : UInt64) (opcode : Opcode) (rest : Bytes)

/-- The fault of an instruction that needs so many bytes behind its opcode. -/
def cut (needed : UInt64) : DecodeError :=
  .truncated position.toNat opcode needed.toNat (count rest).toNat

/-- Reads an operand of `width` bytes that stands behind a length of `front` bytes. -/
def readWidth? (front width : UInt64) : Option (Except DecodeError (Instruction × UInt64)) :=
  match (drop? front rest).bind (take? width) with
  | none => some (.error (cut position opcode rest (addSaturating front width)))
  | some operand =>
    let i : Instruction := ⟨position.toNat, opcode, operand⟩
    (next? position i).map fun next => .ok (i, next)

/-- Reads the operand of an opcode from the bytes behind it. -/
def readOperand? : Option (Except DecodeError (Instruction × UInt64)) :=
  match opcode.layout with
  | .fixed width => readWidth? position opcode rest 0 (UInt64.ofNat width)
  | .inline => readWidth? position opcode rest 0 opcode.value.toUInt64
  | .prefixed front =>
    match take? (UInt64.ofNat front) rest with
    | none => some (.error (cut position opcode rest (UInt64.ofNat front)))
    | some length => readWidth? position opcode rest (UInt64.ofNat front) (number length)

end

/-- The instruction at a position and the position behind it. -/
def decode? (script : Bytes) (position : UInt64) :
    Option (Except DecodeError (Instruction × UInt64)) :=
  match script[position.toNat]? with
  | none => some (.error (.outOfRange position.toNat (count script).toNat))
  | some b => (add? position 1).bind fun behind =>
    (drop? behind script).bind (readOperand? position ⟨b⟩)

/-- The instructions from a position on, ending with the fault if the last one is cut off. -/
def listFrom? (script : Bytes) (position : UInt64) :
    Option (List (Except DecodeError Instruction)) :=
  if position.toNat < script.length then
    match decode? script position with
    | none => none
    | some (.error e) => some [.error e]
    | some (.ok (i, next)) =>
      if position.toNat < next.toNat then (listFrom? script next).map (.ok i :: ·) else none
  else some []
termination_by script.length - position.toNat

def list? (script : Bytes) : Option (List (Except DecodeError Instruction)) :=
  listFrom? script 0

/-- An instruction with the place behind it. -/
def withNext (i : Instruction) : Instruction × UInt64 :=
  (i, UInt64.ofNat i.next)

theorem width_le (opcode : Opcode) :
    opcode.prefixWidth ≤ 4 ∧ opcode.operandWidth [] < 256 := by
  have htable : ∀ v : Fin 256, let opcode : Opcode := ⟨UInt8.ofNat v.val⟩
      opcode.prefixWidth ≤ 4 ∧ opcode.operandWidth [] < 256 := by decide +kernel
  have hvalue := htable ⟨opcode.value.toNat, opcode.value.toNat_lt⟩
  simpa only [UInt8.ofNat_toNat] using hvalue

theorem operandWidth_lt (opcode : Opcode) (rest : Bytes) :
    opcode.operandWidth (rest.take opcode.prefixWidth) < 2 ^ 32 := by
  obtain ⟨hfront, hplain⟩ := width_le opcode
  have hsmall : opcode.operandWidth [] < 2 ^ 32 := Nat.lt_trans hplain (by decide)
  cases hlayout : opcode.layout with
  | fixed width => simpa only [Opcode.operandWidth, hlayout] using hsmall
  | inline => simpa only [Opcode.operandWidth, hlayout] using hsmall
  | prefixed width =>
    have hlength : (rest.take opcode.prefixWidth).length ≤ 4 := by
      rw [List.length_take]
      omega
    have hlt := ofLittleEndian_lt_pow hlength
    simp only [Opcode.operandWidth, hlayout]
    omega

theorem size?_eq {i : Instruction} (h : i.size < UInt64.size) :
    size? i = some (UInt64.ofNat i.size) := by
  have hfront : 1 + i.opcode.prefixWidth < UInt64.size :=
    Nat.lt_of_le_of_lt (Nat.le_add_right _ _) h
  have hone : add? 1 (UInt64.ofNat i.opcode.prefixWidth) =
      some (UInt64.ofNat (1 + i.opcode.prefixWidth)) := add?_ofNat hfront
  rw [size?, hone, Option.bind_some]
  exact add?_ofNat h

theorem next?_eq {i : Instruction} (h : i.next < UInt64.size) :
    next? (UInt64.ofNat i.position) i = some (UInt64.ofNat i.next) := by
  have hsize : i.size < UInt64.size := Nat.lt_of_le_of_lt (Nat.le_add_left _ _) h
  rw [next?, size?_eq hsize, Option.bind_some]
  exact add?_ofNat h

section

variable {position : Nat} {opcode : Opcode} {rest : Bytes}

theorem cut_eq {needed : Nat} (hposition : position < UInt64.size)
    (hneeded : needed < UInt64.size) (hrest : rest.length < UInt64.size) :
    cut (UInt64.ofNat position) opcode rest (UInt64.ofNat needed) =
      .truncated position opcode needed rest.length := by
  rw [cut, count, UInt64.toNat_ofNat_of_lt' hposition, UInt64.toNat_ofNat_of_lt' hneeded,
    UInt64.toNat_ofNat_of_lt' hrest]

/-- An operand behind a length that is there. -/
theorem readOperand_of_le (h : opcode.prefixWidth ≤ rest.length) {width : Nat}
    (hwidth : opcode.operandWidth (rest.take opcode.prefixWidth) = width) :
    Instruction.readOperand position opcode rest =
      if rest.length < opcode.prefixWidth + width then
        .error (.truncated position opcode (opcode.prefixWidth + width) rest.length)
      else .ok ⟨position, opcode, (rest.drop opcode.prefixWidth).take width⟩ := by
  have hdemand : Instruction.demand opcode rest = opcode.prefixWidth + width := by
    rw [Instruction.demand, if_neg (Nat.not_lt.2 h), hwidth]
  rw [Instruction.readOperand_eq, hdemand, List.drop_take, Nat.add_sub_cancel_left]

theorem readWidth?_eq (hfits : position + (rest.length + 1) < UInt64.size)
    (h : opcode.prefixWidth ≤ rest.length) {width : Nat}
    (hwidth : opcode.operandWidth (rest.take opcode.prefixWidth) = width)
    (hneeded : opcode.prefixWidth + width < UInt64.size) :
    readWidth? (UInt64.ofNat position) opcode rest (UInt64.ofNat opcode.prefixWidth)
        (UInt64.ofNat width) =
      some ((Instruction.readOperand position opcode rest).map withNext) := by
  have hposition : position < UInt64.size := Nat.lt_of_le_of_lt (Nat.le_add_right _ _) hfits
  have hrest : rest.length < UInt64.size := by omega
  have hdrop : drop? (UInt64.ofNat opcode.prefixWidth) rest =
      some (rest.drop opcode.prefixWidth) := by
    rw [drop?_ofNat (Nat.lt_of_le_of_lt h hrest), if_pos h]
  have hwidth' : width < UInt64.size := Nat.lt_of_le_of_lt (Nat.le_add_left _ _) hneeded
  rw [readWidth?, hdrop, Option.bind_some, take?_ofNat hwidth', List.length_drop,
    readOperand_of_le h hwidth, addSaturating_ofNat hneeded, cut_eq hposition hneeded hrest]
  by_cases hcut : rest.length < opcode.prefixWidth + width
  · have hnone : ¬width ≤ rest.length - opcode.prefixWidth := by omega
    rw [if_neg hnone, if_pos hcut]
    rfl
  · have hsome : width ≤ rest.length - opcode.prefixWidth := by omega
    rw [if_pos hsome, if_neg hcut]
    let i : Instruction := ⟨position, opcode, (rest.drop opcode.prefixWidth).take width⟩
    have hsize : i.size = 1 + opcode.prefixWidth + width := by
      simp only [i, Instruction.size, List.length_take, List.length_drop]
      omega
    have hnext : i.next < UInt64.size := by
      simp only [Instruction.next, hsize, i]
      omega
    have hchecked : next? (UInt64.ofNat position) i = some (UInt64.ofNat i.next) := next?_eq hnext
    simp only [UInt64.toNat_ofNat_of_lt' hposition, hchecked, i]
    rfl

theorem readOperand?_eq (hfits : position + (rest.length + 1) < UInt64.size) :
    readOperand? (UInt64.ofNat position) opcode rest =
      some ((Instruction.readOperand position opcode rest).map withNext) := by
  obtain ⟨hprefixWidth, hnil⟩ := width_le opcode
  have hsmall : ∀ n ≤ 2 ^ 32 + 4, n < UInt64.size := fun n hn => Nat.lt_of_le_of_lt hn (by decide)
  -- where no length stands in front, the width does not depend on the bytes
  have hplain : opcode.prefixWidth = 0 → readWidth? (UInt64.ofNat position) opcode rest 0
      (UInt64.ofNat (opcode.operandWidth [])) =
        some ((Instruction.readOperand position opcode rest).map withNext) := by
    intro hfront
    have hwidth : opcode.operandWidth (rest.take opcode.prefixWidth) = opcode.operandWidth [] := by
      rw [hfront, List.take_zero]
    have hread := readWidth?_eq hfits (by omega) hwidth (hsmall _ (by omega))
    rwa [hfront] at hread
  cases hlayout : opcode.layout with
  | fixed width =>
    have hfront : opcode.prefixWidth = 0 := by rw [Opcode.prefixWidth, hlayout]
    have hwidth : opcode.operandWidth [] = width := by rw [Opcode.operandWidth, hlayout]
    simpa only [readOperand?, hlayout, hwidth] using hplain hfront
  | inline =>
    have hfront : opcode.prefixWidth = 0 := by rw [Opcode.prefixWidth, hlayout]
    have hwidth : opcode.operandWidth [] = opcode.value.toNat := by
      rw [Opcode.operandWidth, hlayout]
    simpa only [readOperand?, hlayout, hwidth, UInt64.ofNat_uInt8ToNat] using hplain hfront
  | prefixed front =>
    have hfront : opcode.prefixWidth = front := by rw [Opcode.prefixWidth, hlayout]
    have hcount : front < UInt64.size := hsmall _ (by omega)
    simp only [readOperand?, hlayout, take?_ofNat hcount]
    by_cases hlength : front ≤ rest.length
    · have htake : (rest.take front).length = front := by
        rw [List.length_take]
        omega
      have hnumber : number (rest.take front) =
          UInt64.ofNat (Bytes.ofLittleEndian (rest.take front)) := by
        rw [← toNat_number (by omega), UInt64.ofNat_toNat]
      have hwidth : opcode.operandWidth (rest.take opcode.prefixWidth) =
          Bytes.ofLittleEndian (rest.take front) := by
        rw [Opcode.operandWidth, hlayout, hfront]
      have hlt := operandWidth_lt opcode rest
      rw [hwidth] at hlt
      have hread := readWidth?_eq hfits (by omega) hwidth (hsmall _ (by omega))
      rw [hfront] at hread
      simpa only [if_pos hlength, hnumber] using hread
    · have hposition : position < UInt64.size := Nat.lt_of_le_of_lt (Nat.le_add_right _ _) hfits
      have hrest : rest.length < UInt64.size := by omega
      have hdemand : Instruction.demand opcode rest = front := by
        rw [Instruction.demand, hfront, if_pos (Nat.not_le.1 hlength)]
      rw [if_neg hlength, Instruction.readOperand_eq, hdemand, if_pos (Nat.not_le.1 hlength),
        cut_eq hposition hcount hrest]
      rfl

end

section

variable {script : Bytes} {position : UInt64}

theorem decode?_eq (h : script.length < UInt64.size) (position : UInt64) :
    decode? script position =
      some ((Instruction.decode script position.toNat).map withNext) := by
  by_cases hinside : position.toNat < script.length
  · have hdrop := List.drop_eq_getElem_cons hinside
    generalize script[position.toNat] = b at hdrop
    have hget : script[position.toNat]? = some b := by
      rw [← List.head?_drop, hdrop, List.head?_cons]
    have hbehind : position.toNat + 1 < UInt64.size := Nat.lt_of_le_of_lt hinside h
    have hadd : add? position 1 = some (UInt64.ofNat (position.toNat + 1)) := by
      rw [← add?_ofNat hbehind, UInt64.ofNat_toNat]
      rfl
    have hfits :
        position.toNat + ((script.drop (position.toNat + 1)).length + 1) < UInt64.size := by
      rw [List.length_drop]
      omega
    have hread := @readOperand?_eq _ ⟨b⟩ _ hfits
    rw [UInt64.ofNat_toNat] at hread
    rw [decode?, hget, @Instruction.decode_of_drop _ _ _ ⟨b⟩ hdrop]
    simp only [hadd, Option.bind_some, drop?_ofNat hbehind]
    rw [if_pos (Nat.succ_le_of_lt hinside), Option.bind_some, hread]
  · have hle := Nat.le_of_not_lt hinside
    rw [decode?, List.getElem?_eq_none hle, Instruction.decode, List.drop_eq_nil_of_le hle, count,
      UInt64.toNat_ofNat_of_lt' h]
    rfl

theorem next_le_of_decode {i : Instruction} {place : Nat}
    (h : Instruction.decode script place = .ok i) : place < i.next ∧ i.next ≤ script.length := by
  obtain ⟨opcode, rest, hdrop, hread⟩ := Instruction.decode_eq_ok h
  obtain ⟨hposition, -, hsize⟩ := Instruction.readOperand_ok hread
  have hlength := congrArg List.length hdrop
  rw [List.length_drop, List.length_cons] at hlength
  have hpos := i.size_pos
  rw [Instruction.next, hposition]
  omega

theorem decode?_eq_error {e : DecodeError} (h : script.length < UInt64.size)
    (hchecked : decode? script position = some (.error e)) :
    Instruction.decode script position.toNat = .error e := by
  rw [decode?_eq h] at hchecked
  cases hdecode : Instruction.decode script position.toNat with
  | error e' =>
    rw [hdecode] at hchecked
    cases hchecked
    rfl
  | ok i =>
    rw [hdecode] at hchecked
    cases hchecked

theorem decode?_eq_ok {i : Instruction} {next : UInt64} (h : script.length < UInt64.size)
    (hchecked : decode? script position = some (.ok (i, next))) :
    Instruction.decode script position.toNat = .ok i ∧ next.toNat = i.next := by
  rw [decode?_eq h] at hchecked
  cases hdecode : Instruction.decode script position.toNat with
  | error e =>
    rw [hdecode] at hchecked
    cases hchecked
  | ok j =>
    rw [hdecode] at hchecked
    cases hchecked
    have hnext := (next_le_of_decode hdecode).2
    exact ⟨rfl, UInt64.toNat_ofNat_of_lt' (Nat.lt_of_le_of_lt hnext h)⟩

theorem listFrom_drop_of_ok {i : Instruction} {place : Nat}
    (h : Instruction.decode script place = .ok i) :
    Instruction.listFrom place (script.drop place) =
      .ok i :: Instruction.listFrom i.next (script.drop i.next) := by
  obtain ⟨⟨b⟩, rest, hdrop, hread⟩ := Instruction.decode_eq_ok h
  obtain ⟨hposition, -, -⟩ := Instruction.readOperand_ok hread
  have hrest : rest.drop (i.size - 1) = script.drop i.next := by
    have hpos := i.size_pos
    have hplace : i.next = place + (i.size - 1 + 1) := by
      rw [Instruction.next, hposition]
      omega
    rw [hplace, ← List.drop_drop, hdrop, List.drop_succ_cons]
  rw [hdrop, Instruction.listFrom, hread]
  simp only [hrest]

theorem listFrom_drop_of_error {e : DecodeError} {place : Nat} (hinside : place < script.length)
    (h : Instruction.decode script place = .error e) :
    Instruction.listFrom place (script.drop place) = [.error e] := by
  have hdrop := List.drop_eq_getElem_cons hinside
  generalize script[place] = b at hdrop
  rw [@Instruction.decode_of_drop _ _ _ ⟨b⟩ hdrop] at h
  rw [hdrop, Instruction.listFrom, h]

theorem listFrom?_eq (h : script.length < UInt64.size) (position : UInt64) :
    listFrom? script position =
      some (Instruction.listFrom position.toNat (script.drop position.toNat)) := by
  fun_induction listFrom? script position with
  | case1 position hinside hnone =>
    rw [decode?_eq h] at hnone
    cases hnone
  | case2 position hinside e herror =>
    rw [listFrom_drop_of_error hinside (decode?_eq_error h herror)]
  | case3 position hinside i next hok hadvances ih =>
    obtain ⟨hdecode, hnext⟩ := decode?_eq_ok h hok
    rw [ih, hnext, listFrom_drop_of_ok hdecode]
    rfl
  | case4 position hinside i next hok hstays =>
    obtain ⟨hdecode, hnext⟩ := decode?_eq_ok h hok
    rw [hnext] at hstays
    exact absurd (next_le_of_decode hdecode).1 hstays
  | case5 position hend =>
    rw [List.drop_eq_nil_of_le (Nat.le_of_not_lt hend), Instruction.listFrom]

theorem list?_eq (h : script.length < UInt64.size) :
    list? script = some (Instruction.list script) :=
  listFrom?_eq h 0

end

/-! ## Annotating -/

open Annotation (ofInstruction countFields signedPair target?)

/-- The address that a branch leads to, so much further on. -/
def branchTarget? (position : UInt64) (extra : Int) : Bytes → Option (Option Int)
  | low :: high :: _ =>
    (addSigned? (signed position) extra).bind fun origin =>
      (addSigned? origin (signedPair low high)).map some
  | _ => some none

/-- The comment on an instruction; only the target of a branch is computed. -/
def comment? (names : SyscallNames) (i : Instruction) : Option String :=
  match i.opcode.role with
  | .branch =>
    (branchTarget? (UInt64.ofNat i.position) 0 i.operand).map fun target =>
      (target.map Annotation.targetField).getD ""
  | .countedBranch =>
    (branchTarget? (UInt64.ofNat i.position) 2 (i.operand.drop 2)).map fun target =>
      Annotation.joined (countFields i.operand ++ (target.map Annotation.targetField).toList)
  | _ => some (ofInstruction names i)

def line? (names : SyscallNames) (i : Instruction) : Option Line :=
  (comment? names i).map fun comment =>
    { address := i.position
      mnemonic := i.opcode.name
      operand := Line.operandText i.operand
      annotation := comment }

theorem signedPair_mem (low high : UInt8) :
    -2 ^ 15 ≤ signedPair low high ∧ signedPair low high < 2 ^ 15 :=
  ⟨Int.le_bmod (by decide), Int.bmod_lt (by decide)⟩

theorem branchTarget?_eq {position extra : Nat} (hposition : position < maxLength)
    (hextra : extra ≤ 2) (operand : Bytes) :
    branchTarget? (UInt64.ofNat position) extra operand =
      some (target? (position + extra) operand) := by
  match operand with
  | [] => rfl
  | [_] => rfl
  | low :: high :: rest =>
    obtain ⟨hlow, hhigh⟩ := signedPair_mem low high
    rw [maxLength] at hposition
    have hsigned : signed (UInt64.ofNat position) = position := signed_ofNat (by omega)
    have horigin : addSigned? position extra = some ((position + extra : Nat) : Int) := by
      rw [Int.natCast_add, addSigned?_eq (by omega) (by omega)]
    have htarget := addSigned?_eq (a := (position + extra : Nat)) (b := signedPair low high)
      (by omega) (by omega)
    rw [branchTarget?, hsigned, horigin, Option.bind_some, htarget]
    rfl

theorem comment?_eq (names : SyscallNames) {i : Instruction} (h : i.position < maxLength) :
    comment? names i = some (ofInstruction names i) := by
  unfold comment? Annotation.ofInstruction
  cases i.opcode.role with
  | branch =>
    have htarget : branchTarget? (UInt64.ofNat i.position) 0 i.operand =
        some (target? i.position i.operand) := branchTarget?_eq h (Nat.zero_le 2) _
    simp only [htarget, Option.map_some]
  | countedBranch =>
    have htarget : branchTarget? (UInt64.ofNat i.position) 2 (i.operand.drop 2) =
        some (target? (i.position + 2) (i.operand.drop 2)) :=
      branchTarget?_eq h (Nat.le_refl 2) _
    simp only [htarget, Option.map_some]
  | _ => rfl

theorem line?_eq (names : SyscallNames) {i : Instruction} (h : i.position < maxLength) :
    line? names i = some (Line.ofInstruction names i) := by
  rw [line?, comment?_eq names h]
  rfl

end Checked
end ScriptScope
