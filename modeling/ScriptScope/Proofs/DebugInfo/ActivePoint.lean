import ScriptScope.Proofs.DebugInfo.Lookups

/-!
# ScriptScope.Proofs.DebugInfo.ActivePoint

Which sequence point is active at an address, of points in ascending order.

The lookup tries three rules in turn, and where several points begin at one address the rules do not
agree on which of them to take: a hit takes the first, an address in between takes the last one
below it. `Active` says what each rule takes, by what stands before and behind it.

* `activeBy_of_active`, `exists_active`: up to the last address, the lookup gives what the rules
  say.
* `Active.le_of_le`: what is active is as close to the address as an element at or below it can be.
* `active?_ascending`: so the points that are found are in the order of the addresses, and the
  address of a point that was found finds that address again.
-/

namespace ScriptScope

/-- How an element is the one active at an address, given the elements before and behind it. -/
inductive Active (address : α → Nat) (ip : Nat) (before : List α) (x : α) (behind : List α) :
    Prop where
  /-- It is the first at the address itself. -/
  | hit (hx : address x = ip) (hbefore : ∀ y ∈ before, address y ≠ ip)
  /-- It is the first of all, and beyond the address. -/
  | beyond (hx : ip < address x) (hbefore : before = [])
  /-- It is the last below the address, and there are others above. -/
  | between (hx : address x < ip) (hbehind : ∀ y ∈ behind, ip < address y) (hsome : behind ≠ [])

section

variable {address : α → Nat} {ip : Nat} {xs before behind : List α} {x y : α}

/-! ## The three rules -/

theorem activeBy_of_find? (h : xs.find? (fun x => address x = ip) = some x) :
    activeBy address xs ip = some x := by
  simp only [activeBy, h]

theorem find?_address_eq_none (h : ∀ y ∈ xs, address y ≠ ip) :
    xs.find? (fun x => address x = ip) = none := by
  rw [List.find?_eq_none]
  intro y hy
  simpa using h y hy

/-- The first pair of neighbours around an address, of which all elements before are below it. -/
theorem find?_neighbours (hbelow : ∀ z ∈ before ++ [x], address z < ip) (hy : ip ≤ address y) :
    ((before ++ x :: y :: behind).zip (before ++ x :: y :: behind).tail).find?
      (fun (a, b) => address a < ip && ip ≤ address b) = some (x, y) := by
  induction before with
  | nil =>
    have hx : address x < ip := hbelow x List.mem_cons_self
    simp [hx, hy]
  | cons first before ih =>
    have hrest := ih fun z hz => hbelow z (List.mem_cons_of_mem _ hz)
    -- the neighbour of the first element is below the address as well
    cases before with
    | nil =>
      have hx : address x < ip := hbelow x (by simp)
      simpa [Nat.not_le.2 hx] using hrest
    | cons second before =>
      have hsecond : address second < ip := hbelow second (by simp)
      simpa [Nat.not_le.2 hsecond] using hrest

theorem activeBy_of_hit (hx : address x = ip) (hbefore : ∀ y ∈ before, address y ≠ ip) :
    activeBy address (before ++ x :: behind) ip = some x := by
  apply activeBy_of_find?
  rw [List.find?_append, find?_address_eq_none hbefore, List.find?_cons_of_pos (by simpa using hx)]
  rfl

theorem activeBy_of_beyond (hx : ip < address x) (hbehind : ∀ y ∈ behind, ip < address y) :
    activeBy address (x :: behind) ip = some x := by
  have hnone : (x :: behind).find? (fun x => address x = ip) = none := by
    apply find?_address_eq_none
    intro y hy
    rcases List.mem_cons.1 hy with rfl | hy
    · exact Nat.ne_of_gt hx
    · exact Nat.ne_of_gt (hbehind y hy)
  simp only [activeBy, hnone, if_pos (Nat.le_of_lt hx)]

theorem activeBy_of_between (hbelow : ∀ z ∈ before ++ [x], address z < ip)
    (habove : ∀ z ∈ y :: behind, ip < address z) :
    activeBy address (before ++ x :: y :: behind) ip = some x := by
  have hnone : (before ++ x :: y :: behind).find? (fun x => address x = ip) = none := by
    apply find?_address_eq_none
    intro z hz
    rw [List.append_cons, List.mem_append] at hz
    rcases hz with hz | hz
    · exact Nat.ne_of_lt (hbelow z hz)
    · exact Nat.ne_of_gt (habove z hz)
  have hpair := @find?_neighbours _ _ _ _ behind _ _ hbelow
    (Nat.le_of_lt (habove y List.mem_cons_self))
  cases hxs : before ++ x :: y :: behind with
  | nil => simp at hxs
  | cons first rest =>
    have hfirst : address first < ip := by
      apply hbelow
      cases before with
      | nil =>
        cases hxs
        exact List.mem_cons_self
      | cons z before =>
        cases hxs
        exact List.mem_cons_self
    rw [hxs] at hnone hpair
    rw [List.tail_cons] at hpair
    simp only [activeBy, hnone, if_neg (Nat.not_le.2 hfirst), hpair, Option.map_some]

/-! ## Ascending elements -/

variable (hascending : xs.Pairwise fun x y => address x ≤ address y)
include hascending

theorem activeBy_of_active (hxs : xs = before ++ x :: behind)
    (h : Active address ip before x behind) : activeBy address xs ip = some x := by
  subst hxs
  obtain ⟨-, hright, hcross⟩ := List.pairwise_append.1 hascending
  cases h with
  | hit hx hbefore => exact activeBy_of_hit hx hbefore
  | beyond hx hbefore =>
    subst hbefore
    apply activeBy_of_beyond hx
    intro y hy
    exact Nat.lt_of_lt_of_le hx ((List.pairwise_cons.1 hright).1 y hy)
  | between hx hbehind hsome =>
    obtain ⟨y, behind, rfl⟩ := List.exists_cons_of_ne_nil hsome
    apply activeBy_of_between _ hbehind
    intro z hz
    rcases List.mem_append.1 hz with hz | hz
    · exact Nat.lt_of_le_of_lt (hcross z hz x List.mem_cons_self) hx
    · rw [List.mem_singleton.1 hz]
      exact hx

/-- Unless all elements are below an address, one is active there. -/
theorem exists_active (h : ∃ x ∈ xs, ip ≤ address x) :
    ∃ before x behind, xs = before ++ x :: behind ∧ Active address ip before x behind := by
  -- the first element that is not below the address decides which rule holds
  obtain ⟨y, hfind⟩ : ∃ y, xs.find? (fun x => ip ≤ address x) = some y := by
    obtain ⟨x, hmem, hx⟩ := h
    exact Option.isSome_iff_exists.1 (List.find?_isSome.2 ⟨x, hmem, decide_eq_true hx⟩)
  obtain ⟨hy, before, behind, hxs, hbefore⟩ := List.find?_eq_some_iff_append.1 hfind
  have hle : ip ≤ address y := of_decide_eq_true hy
  have hbelow : ∀ z ∈ before, address z < ip := by simpa using hbefore
  rcases Nat.eq_or_lt_of_le hle with hhit | habove
  · exact ⟨before, y, behind, hxs, .hit hhit.symm fun z hz => Nat.ne_of_lt (hbelow z hz)⟩
  rcases List.eq_nil_or_concat' before with rfl | ⟨front, x, rfl⟩
  · exact ⟨[], y, behind, hxs, .beyond habove rfl⟩
  · refine ⟨front, x, y :: behind, by simpa using hxs, .between ?_ ?_ (by simp)⟩
    · exact hbelow x (by simp)
    · rw [hxs] at hascending
      have hright := (List.pairwise_append.1 hascending).2.1
      intro z hz
      rcases List.mem_cons.1 hz with rfl | hz
      · exact habove
      · exact Nat.lt_of_lt_of_le habove ((List.pairwise_cons.1 hright).1 z hz)

theorem activeBy_eq_none_iff :
    activeBy address xs ip = none ↔ ∀ x ∈ xs, address x < ip := by
  constructor
  · intro hnone x hx
    by_contra hge
    obtain ⟨before, z, behind, hxs, hactive⟩ :=
      exists_active hascending ⟨x, hx, Nat.le_of_not_lt hge⟩
    rw [activeBy_of_active hascending hxs hactive] at hnone
    cases hnone
  · intro hbelow
    have hnone := find?_address_eq_none fun x hx => Nat.ne_of_lt (hbelow x hx)
    cases xs with
    | nil => rfl
    | cons first rest =>
      have hfirst := Nat.not_le.2 (hbelow first List.mem_cons_self)
      simp only [activeBy, hnone, if_neg hfirst, Option.map_eq_none_iff, List.find?_eq_none]
      rintro ⟨a, b⟩ hpair
      have hb := hbelow b (List.mem_cons_of_mem _ (List.of_mem_zip hpair).2)
      simpa using fun _ => hb

theorem activeBy_eq_some_iff :
    activeBy address xs ip = some x ↔
      ∃ before behind, xs = before ++ x :: behind ∧ Active address ip before x behind := by
  constructor
  · intro hx
    have hsome : ∃ y ∈ xs, ip ≤ address y := by
      by_contra hbelow
      have hnone : activeBy address xs ip = none := by
        rw [activeBy_eq_none_iff hascending]
        simpa using hbelow
      rw [hnone] at hx
      cases hx
    obtain ⟨before, y, behind, hxs, hactive⟩ := exists_active hascending hsome
    rw [activeBy_of_active hascending hxs hactive] at hx
    cases hx
    exact ⟨before, behind, hxs, hactive⟩
  · rintro ⟨before, behind, hxs, hactive⟩
    exact activeBy_of_active hascending hxs hactive

/-- What is active is as close to the address as an element at or below it can be. -/
theorem Active.le_of_le (hxs : xs = before ++ x :: behind) (h : Active address ip before x behind)
    (hy : y ∈ xs) (hle : address y ≤ ip) : address y ≤ address x := by
  rw [hxs] at hascending hy
  obtain ⟨-, hright, hcross⟩ := List.pairwise_append.1 hascending
  rcases List.mem_append.1 hy with hy | hy
  · exact hcross y hy x List.mem_cons_self
  rcases List.mem_cons.1 hy with rfl | hy
  · exact Nat.le_refl _
  cases h with
  | hit hx hbefore => omega
  | beyond hx hbefore =>
    have hle' := (List.pairwise_cons.1 hright).1 y hy
    omega
  | between hx hbehind hsome =>
    have hlt := hbehind y hy
    omega

/-- An element beyond the address is active only if none is before it. -/
theorem Active.le_or_least (hxs : xs = before ++ x :: behind)
    (h : Active address ip before x behind) :
    address x ≤ ip ∨ ∀ y ∈ xs, address x ≤ address y := by
  cases h with
  | hit hx hbefore => exact .inl (Nat.le_of_eq hx)
  | between hx hbehind hsome => exact .inl (Nat.le_of_lt hx)
  | beyond hx hbefore =>
    subst hbefore
    rw [hxs] at hascending ⊢
    refine .inr fun y hy => ?_
    rcases List.mem_cons.1 hy with rfl | hy
    · exact Nat.le_refl _
    · exact (List.pairwise_cons.1 hascending).1 y hy

theorem address_le_of_activeBy {low high : Nat} (hle : low ≤ high)
    (hx : activeBy address xs low = some x) (hy : activeBy address xs high = some y) :
    address x ≤ address y := by
  obtain ⟨_, _, hxs, hlow⟩ := (activeBy_eq_some_iff hascending).1 hx
  obtain ⟨_, _, hys, hhigh⟩ := (activeBy_eq_some_iff hascending).1 hy
  rcases hlow.le_or_least hascending hxs with hbelow | hleast
  · exact hhigh.le_of_le hascending hys (mem_of_activeBy hx) (Nat.le_trans hbelow hle)
  · exact hleast y (mem_of_activeBy hy)

omit hascending

theorem activeBy_address_of_mem (hx : x ∈ xs) :
    ∃ y, activeBy address xs (address x) = some y ∧ address y = address x := by
  obtain ⟨y, hfind⟩ : ∃ y, xs.find? (fun y => address y = address x) = some y :=
    Option.isSome_iff_exists.1 (List.find?_isSome.2 ⟨x, hx, decide_eq_true rfl⟩)
  exact ⟨y, activeBy_of_find? hfind, by simpa using List.find?_some hfind⟩

/-- The lookup goes by the addresses alone. -/
theorem activeBy_map (f : β → α) (zs : List β) :
    activeBy address (zs.map f) ip = (activeBy (fun z => address (f z)) zs ip).map f := by
  have hfind : (zs.map f).find? (fun x => address x = ip) =
      (zs.find? fun z => address (f z) = ip).map f := List.find?_map
  simp only [activeBy, hfind]
  cases zs.find? (fun z => address (f z) = ip) with
  | some z => rfl
  | none =>
    cases zs with
    | nil => rfl
    | cons first rest =>
      have hpairs : ((first :: rest).map f).zip (rest.map f) =
          ((first :: rest).zip rest).map (Prod.map f f) := List.zip_map ..
      rw [List.map_cons] at hpairs
      simp only [Option.map_none, List.map_cons]
      split
      · rfl
      · rw [hpairs, List.find?_map, Option.map_map, Option.map_map]
        rfl

/-- All elements are below an address when there is none, or the last one is below it. -/
theorem forall_address_lt_iff (hascending : xs.Pairwise fun x y => address x ≤ address y) :
    (∀ x ∈ xs, address x < ip) ↔
      xs = [] ∨ ∃ last, xs.getLast? = some last ∧ address last < ip := by
  rcases List.eq_nil_or_concat' xs with rfl | ⟨front, last, rfl⟩
  · simp
  · have hle := (List.pairwise_append.1 hascending).2.2
    constructor
    · intro h
      exact .inr ⟨last, List.getLast?_concat .., h last (by simp)⟩
    · intro h x hx
      obtain ⟨z, hz, hlt⟩ := h.resolve_left (by simp)
      rw [List.getLast?_concat] at hz
      cases hz
      rcases List.mem_append.1 hx with hx | hx
      · exact Nat.lt_of_le_of_lt (hle x hx last List.mem_cons_self) hlt
      · rwa [List.mem_singleton.1 hx]

theorem active_map_iff (f : β → α) {front back : List β} {z : β} :
    Active address ip (front.map f) (f z) (back.map f) ↔
      Active (fun z => address (f z)) ip front z back := by
  constructor
  · intro h
    cases h with
    | hit hx hbefore => exact .hit hx (by simpa using hbefore)
    | beyond hx hbefore => exact .beyond hx (by simpa using hbefore)
    | between hx hbehind hsome => exact .between hx (by simpa using hbehind) (by simpa using hsome)
  · intro h
    cases h with
    | hit hx hbefore => exact .hit hx (by simpa using hbefore)
    | beyond hx hbefore => exact .beyond hx (by simpa using hbefore)
    | between hx hbehind hsome => exact .between hx (by simpa using hbehind) (by simpa using hsome)

end

/-! ## Sequence points -/

namespace SequencePoint

variable {points : List SequencePoint} {ip : Nat}

/-- The place in the list of the point active at an address. -/
def activePlace? (points : List SequencePoint) (ip : Nat) : Option Nat :=
  (activeBy (fun numbered => numbered.1.address) points.zipIdx ip).map Prod.snd

theorem active?_eq_bind_activePlace? (points : List SequencePoint) (ip : Nat) :
    active? points ip = (activePlace? points ip).bind fun i => points[i]? := by
  have hmap := @activeBy_map _ address ip _ Prod.fst points.zipIdx
  rw [List.zipIdx_map_fst] at hmap
  rw [active?, activePlace?, hmap]
  cases hactive : activeBy (fun numbered => numbered.1.address) points.zipIdx ip with
  | none => rfl
  | some numbered =>
    have hplace := List.mem_zipIdx_iff_getElem?.1 (mem_of_activeBy hactive)
    exact hplace.symm

theorem activePlace?_eq_some_iff (h : points.Pairwise fun p q => p.address ≤ q.address) {i : Nat} :
    activePlace? points ip = some i ↔
      ∃ before p behind, points = before ++ p :: behind ∧ before.length = i ∧
        Active address ip before p behind := by
  have hnumbered : points.zipIdx.Pairwise fun a b => a.1.address ≤ b.1.address := by
    rw [← List.zipIdx_map_fst 0 points, List.pairwise_map] at h
    exact h
  rw [activePlace?, Option.map_eq_some_iff]
  constructor
  · rintro ⟨⟨p, place⟩, hactive, rfl⟩
    obtain ⟨front, back, hsplit, hactive⟩ := (activeBy_eq_some_iff hnumbered).1 hactive
    refine ⟨front.map Prod.fst, p, back.map Prod.fst, ?_, ?_, (active_map_iff Prod.fst).2 hactive⟩
    · rw [← List.zipIdx_map_fst 0 points, hsplit, List.map_append, List.map_cons]
    · have hlast : points.zipIdx[front.length]? = some (p, place) := by
        rw [hsplit, List.getElem?_append_right (Nat.le_refl _), Nat.sub_self,
          List.getElem?_cons_zero]
      rw [List.getElem?_zipIdx, Option.map_eq_some_iff] at hlast
      obtain ⟨q, -, hq⟩ := hlast
      rw [List.length_map]
      simpa using congrArg Prod.snd hq
  · rintro ⟨before, p, behind, rfl, rfl, hactive⟩
    refine ⟨(p, before.length), ?_, rfl⟩
    rw [activeBy_eq_some_iff hnumbered]
    refine ⟨before.zipIdx, behind.zipIdx (before.length + 1), ?_, ?_⟩
    · simp [List.zipIdx_append]
    · apply (active_map_iff Prod.fst).1
      rwa [List.zipIdx_map_fst, List.zipIdx_map_fst]

theorem active?_ascending (points : List SequencePoint)
    (h : points.Pairwise fun p q => p.address ≤ q.address) :
    (∀ ip, active? points ip = (activePlace? points ip).bind fun i => points[i]?) ∧
    (∀ ip i, activePlace? points ip = some i ↔
      ∃ before p behind, points = before ++ p :: behind ∧ before.length = i ∧
        Active address ip before p behind) ∧
    (∀ ip, active? points ip = none ↔
      points = [] ∨ ∃ last, points.getLast? = some last ∧ last.address < ip) ∧
    (∀ low high p q, low ≤ high → active? points low = some p → active? points high = some q →
      p.address ≤ q.address) ∧
    ∀ ip p, active? points ip = some p →
      ∃ q, active? points p.address = some q ∧ q.address = p.address := by
  refine ⟨active?_eq_bind_activePlace? points, fun ip i => activePlace?_eq_some_iff h, ?_, ?_, ?_⟩
  · intro ip
    rw [active?, activeBy_eq_none_iff h]
    exact forall_address_lt_iff h
  · intro low high p q hle hp hq
    exact address_le_of_activeBy h hle hp hq
  · intro ip p hp
    exact activeBy_address_of_mem (mem_of_activeBy hp)

/-- Two points at one address: the address itself takes the first, one behind it the second. -/
theorem active?_ascending_repeated :
    let first : SequencePoint := ⟨2, 0, ⟨1, 1⟩, ⟨1, 9⟩⟩
    let second : SequencePoint := ⟨5, 0, ⟨2, 1⟩, ⟨2, 9⟩⟩
    let third : SequencePoint := ⟨5, 1, ⟨7, 1⟩, ⟨7, 9⟩⟩
    let fourth : SequencePoint := ⟨9, 0, ⟨3, 1⟩, ⟨3, 9⟩⟩
    let points := [first, second, third, fourth]
    (points.Pairwise fun p q => p.address ≤ q.address) ∧
      activePlace? points 0 = some 0 ∧ activePlace? points 5 = some 1 ∧
      activePlace? points 7 = some 2 ∧ active? points 7 = some third ∧
      (∃ q, active? points third.address = some q ∧ q.address = third.address) ∧
      active? points 10 = none := by
  intro first second third fourth points
  have hascending : points.Pairwise fun p q => p.address ≤ q.address := by decide
  obtain ⟨hpoint, hplace, hnone, -, hagain⟩ := active?_ascending points hascending
  have hseven : activePlace? points 7 = some 2 :=
    (hplace 7 2).2 ⟨[first, second], third, [fourth], rfl, rfl,
      .between (by decide) (by decide) (by decide)⟩
  have hthird : active? points 7 = some third := by
    rw [hpoint, hseven]
    rfl
  refine ⟨hascending, ?_, ?_, hseven, hthird, hagain 7 third hthird, ?_⟩
  · exact (hplace 0 0).2 ⟨[], first, [second, third, fourth], rfl, rfl, .beyond (by decide) rfl⟩
  · exact (hplace 5 1).2 ⟨[first], second, [third, fourth], rfl, rfl, .hit rfl (by decide)⟩
  · exact (hnone 10).2 (.inr ⟨fourth, rfl, by decide⟩)

end SequencePoint
end ScriptScope
