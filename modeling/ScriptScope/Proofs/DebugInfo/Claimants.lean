import Mathlib.Data.List.Perm.Basic
import Mathlib.Order.CompletePartialOrder
import Mathlib.Order.Interval.Set.Disjoint
import ScriptScope.Proofs.DebugInfo.Lookups

/-!
# ScriptScope.Proofs.DebugInfo.Claimants

The methods that claim an address, by their places in the list.

A list of methods may hold a method twice, ranges that overlap or end before they start, and methods
of several scripts. The lookup picks none of several; so it is the places that count, not the
methods that stand there.

* `exists_claimants`: what the lookup filters, place by place.
* `resolve_eq_iff`: the outcome for no place, for one and for several.
* `exists_error_iff`: an address is ambiguous if and only if two places claim it.
* `resolve_claimants`: so no address of a script is ambiguous if and only if the ranges of its
  methods do not meet, which shows at the addresses where the ranges begin.
-/

namespace ScriptScope
namespace Method

/-- Whether a method is one of the script and has the address in its range, both ends included. -/
def Claims (hash : ScriptHash) (ip : Nat) (m : Method) : Prop :=
  m.scriptHash = hash ∧ m.start ≤ ip ∧ ip ≤ m.stop

/-- The places of all methods that claim an address, in their order. -/
structure Claimants (methods : List Method) (hash : ScriptHash) (ip : Nat) (places : List Nat) :
    Prop where
  ascending : places.Pairwise (· < ·)
  mem_iff : ∀ i, i ∈ places ↔ ∃ m, methods[i]? = some m ∧ m.Claims hash ip

/-- Equal outcomes, but for the order of the candidates. -/
inductive SameFound :
    Except Ambiguity (Option Method) → Except Ambiguity (Option Method) → Prop where
  | found (m : Option Method) : SameFound (.ok m) (.ok m)
  | ambiguous {hash : ScriptHash} {ip : Nat} {ids ids' : List String} (h : ids.Perm ids') :
    SameFound (.error ⟨hash, ip, ids⟩) (.error ⟨hash, ip, ids'⟩)

variable {methods others : List Method} {hash : ScriptHash} {ip : Nat} {places : List Nat}
  {m : Method} {i : Nat}

theorem claims_iff :
    (m.scriptHash = hash && m.contains ip) = true ↔ m.Claims hash ip := by
  simp [contains, Claims]

/-- The methods that the lookup keeps. -/
def claiming (methods : List Method) (hash : ScriptHash) (ip : Nat) : List Method :=
  methods.filter fun m => m.scriptHash = hash && m.contains ip

theorem resolve_eq_only_claiming (methods : List Method) (hash : ScriptHash) (ip : Nat) :
    resolve methods hash ip = only hash ip (claiming methods hash ip) :=
  resolve_eq_only methods hash ip

/-! ## Places -/

theorem exists_claimants (methods : List Method) (hash : ScriptHash) (ip : Nat) :
    ∃ places, Claimants methods hash ip places ∧
      places.map (methods[·]?) = (claiming methods hash ip).map some := by
  let claimed := methods.zipIdx.filter fun (m, _) => m.scriptHash = hash && m.contains ip
  have hmem : ∀ m i, (m, i) ∈ claimed ↔ methods[i]? = some m ∧ m.Claims hash ip := by
    intro m i
    rw [List.mem_filter, List.mem_zipIdx_iff_getElem?, claims_iff]
  refine ⟨claimed.map Prod.snd, ⟨?_, ?_⟩, ?_⟩
  · have hplaces : (methods.zipIdx.map Prod.snd).Pairwise (· < ·) := by
      rw [List.zipIdx_map_snd]
      exact List.pairwise_lt_range'
    exact hplaces.sublist (List.filter_sublist.map _)
  · intro i
    simp [hmem]
  · have hplace : claimed.map (fun numbered => methods[numbered.2]?) =
        claimed.map fun numbered => some numbered.1 :=
      List.map_congr_left fun numbered h => ((hmem numbered.1 numbered.2).1 h).1
    have hclaimed : claiming methods hash ip = claimed.map Prod.fst := by
      conv => lhs; rw [claiming, ← List.zipIdx_map_fst 0 methods, List.filter_map]
      rfl
    rw [hclaimed, List.map_map, List.map_map]
    exact hplace

namespace Claimants

theorem unique {places' : List Nat} (h : Claimants methods hash ip places)
    (h' : Claimants methods hash ip places') : places = places' := by
  have hperm : places.Perm places' := by
    rw [List.perm_ext_iff_of_nodup h.ascending.nodup h'.ascending.nodup]
    intro i
    rw [h.mem_iff, h'.mem_iff]
  exact hperm.eq_of_pairwise (fun i j _ _ hij hji => by omega) h.ascending h'.ascending

/-- The methods at the places are those that the lookup keeps. -/
theorem map_getElem? (h : Claimants methods hash ip places) :
    places.map (methods[·]?) = (claiming methods hash ip).map some := by
  obtain ⟨places', h', hmap⟩ := exists_claimants methods hash ip
  rwa [h.unique h']

theorem nil_iff :
    Claimants methods hash ip [] ↔ ∀ (i : Nat) m, methods[i]? = some m → ¬m.Claims hash ip := by
  constructor
  · intro h i m hi hm
    exact List.not_mem_nil ((h.mem_iff i).2 ⟨m, hi, hm⟩)
  · intro h
    refine ⟨.nil, fun i => ⟨fun hi => absurd hi List.not_mem_nil, ?_⟩⟩
    rintro ⟨m, hi, hm⟩
    exact absurd hm (h i m hi)

theorem singleton_iff (hi : methods[i]? = some m) :
    Claimants methods hash ip [i] ↔
      m.Claims hash ip ∧ ∀ (j : Nat) n, methods[j]? = some n → n.Claims hash ip → j = i := by
  constructor
  · intro h
    obtain ⟨n, hn, hclaims⟩ := (h.mem_iff i).1 (List.mem_singleton_self i)
    rw [hi] at hn
    cases hn
    refine ⟨hclaims, fun j n hj hn => ?_⟩
    exact List.mem_singleton.1 ((h.mem_iff j).2 ⟨n, hj, hn⟩)
  · rintro ⟨hclaims, honly⟩
    refine ⟨List.pairwise_singleton .., fun j => ?_⟩
    rw [List.mem_singleton]
    constructor
    · rintro rfl
      exact ⟨m, hi, hclaims⟩
    · rintro ⟨n, hj, hn⟩
      exact honly j n hj hn

end Claimants

/-! ## The three outcomes -/

/-- What the places that claim an address make of it. -/
inductive Outcome (methods : List Method) (hash : ScriptHash) (ip : Nat) :
    Except Ambiguity (Option Method) → Prop where
  | none (h : Claimants methods hash ip []) : Outcome methods hash ip (.ok none)
  | one {i : Nat} {m : Method} (h : Claimants methods hash ip [i]) (hi : methods[i]? = some m) :
    Outcome methods hash ip (.ok (some m))
  | several {places : List Nat} {ids : List String} (h : Claimants methods hash ip places)
    (hseveral : 2 ≤ places.length)
    (hids : ids.map some = places.map fun i => methods[i]?.map Method.id) :
    Outcome methods hash ip (.error ⟨hash, ip, ids⟩)

theorem map_id_claiming (h : Claimants methods hash ip places) :
    ((claiming methods hash ip).map Method.id).map some =
      places.map fun i => methods[i]?.map Method.id := by
  have hids := congrArg (List.map (Option.map Method.id)) h.map_getElem?
  rw [List.map_map, List.map_map] at hids
  rw [List.map_map]
  exact hids.symm

theorem exists_outcome (methods : List Method) (hash : ScriptHash) (ip : Nat) :
    ∃ found, Outcome methods hash ip found := by
  obtain ⟨places, h, -⟩ := exists_claimants methods hash ip
  match places with
  | [] => exact ⟨_, .none h⟩
  | [i] =>
    obtain ⟨m, hi, -⟩ := (h.mem_iff i).1 (List.mem_singleton_self i)
    exact ⟨_, .one h hi⟩
  | i :: j :: rest => exact ⟨_, .several h (by simp) (map_id_claiming h)⟩

theorem Outcome.resolve_eq {found : Except Ambiguity (Option Method)}
    (h : Outcome methods hash ip found) : resolve methods hash ip = found := by
  rw [resolve_eq_only_claiming]
  cases h with
  | none h =>
    have hnone : (claiming methods hash ip).map some = [] := h.map_getElem?.symm
    rw [List.map_eq_nil_iff.1 hnone]
    rfl
  | @one i m h hi =>
    have hone : (claiming methods hash ip).map some = [some m] := by
      rw [← h.map_getElem?, List.map_singleton, hi]
    obtain ⟨n, hclaiming, hn⟩ := List.map_eq_singleton_iff.1 hone
    rw [hclaiming, Option.some.inj hn]
    rfl
  | @several places ids h hseveral hids =>
    have hlength : 2 ≤ (claiming methods hash ip).length := by
      rwa [← List.length_map (f := some), ← h.map_getElem?, List.length_map]
    rw [← map_id_claiming h] at hids
    rw [List.map_injective_iff.2 (Option.some_injective _) hids]
    match claiming methods hash ip, hlength with
    | m :: n :: rest, _ => rfl

theorem resolve_eq_iff {found : Except Ambiguity (Option Method)} :
    resolve methods hash ip = found ↔ Outcome methods hash ip found := by
  constructor
  · rintro rfl
    obtain ⟨found, h⟩ := exists_outcome methods hash ip
    rwa [h.resolve_eq]
  · exact Outcome.resolve_eq

theorem resolve_eq_none_iff :
    resolve methods hash ip = .ok none ↔
      ∀ (i : Nat) m, methods[i]? = some m → ¬m.Claims hash ip := by
  rw [resolve_eq_iff, ← Claimants.nil_iff]
  constructor
  · intro h
    cases h with
    | none h => exact h
  · exact .none

theorem resolve_eq_some_iff :
    resolve methods hash ip = .ok (some m) ↔
      ∃ i : Nat, methods[i]? = some m ∧ m.Claims hash ip ∧
        ∀ (j : Nat) n, methods[j]? = some n → n.Claims hash ip → j = i := by
  rw [resolve_eq_iff]
  constructor
  · intro h
    cases h with
    | @one i m h hi => exact ⟨i, hi, (Claimants.singleton_iff hi).1 h⟩
  · rintro ⟨i, hi, honly⟩
    exact .one ((Claimants.singleton_iff hi).2 honly) hi

theorem resolve_eq_error_iff {a : Ambiguity} :
    resolve methods hash ip = .error a ↔
      ∃ places, Claimants methods hash ip places ∧ 2 ≤ places.length ∧
        a.scriptHash = hash ∧ a.address = ip ∧
        a.candidates.map some = places.map fun i => methods[i]?.map Method.id := by
  rw [resolve_eq_iff]
  constructor
  · intro h
    cases h with
    | several h hseveral hids => exact ⟨_, h, hseveral, rfl, rfl, hids⟩
  · rintro ⟨places, h, hseveral, rfl, rfl, hids⟩
    exact .several h hseveral hids

/-! ## Ambiguous addresses -/

theorem exists_error_iff :
    (∃ a, resolve methods hash ip = .error a) ↔
      ∃ (i j : Nat) (m n : Method), i ≠ j ∧ methods[i]? = some m ∧ methods[j]? = some n ∧
        m.Claims hash ip ∧ n.Claims hash ip := by
  constructor
  · rintro ⟨a, ha⟩
    obtain ⟨places, h, hseveral, -⟩ := resolve_eq_error_iff.1 ha
    match places, hseveral with
    | i :: j :: rest, _ =>
      have hij : i < j := (List.pairwise_cons.1 h.ascending).1 j List.mem_cons_self
      obtain ⟨m, hi, hm⟩ := (h.mem_iff i).1 List.mem_cons_self
      obtain ⟨n, hj, hn⟩ := (h.mem_iff j).1 (List.mem_cons_of_mem _ List.mem_cons_self)
      exact ⟨i, j, m, n, Nat.ne_of_lt hij, hi, hj, hm, hn⟩
  · rintro ⟨i, j, m, n, hij, hi, hj, hm, hn⟩
    cases hfound : resolve methods hash ip with
    | error a => exact ⟨a, rfl⟩
    | ok found =>
      cases found with
      | none => exact absurd hm (resolve_eq_none_iff.1 hfound i m hi)
      | some l =>
        obtain ⟨k, -, -, honly⟩ := resolve_eq_some_iff.1 hfound
        exact absurd ((honly i m hi hm).trans (honly j n hj hn).symm) hij

theorem exists_ok_iff :
    (∃ found, resolve methods hash ip = .ok found) ↔ ¬∃ a, resolve methods hash ip = .error a := by
  cases resolve methods hash ip <;> simp

/-- Two methods that claim an address claim the later one of their starts. -/
theorem Claims.at_start {n : Method} (hm : m.Claims hash ip) (hn : n.Claims hash ip) :
    (m.Claims hash m.start ∧ n.Claims hash m.start) ∨
      (m.Claims hash n.start ∧ n.Claims hash n.start) := by
  obtain ⟨hmhash, hmstart, hmstop⟩ := hm
  obtain ⟨hnhash, hnstart, hnstop⟩ := hn
  rcases Nat.le_total n.start m.start with hle | hle
  · exact .inl ⟨⟨hmhash, by omega, by omega⟩, ⟨hnhash, by omega, by omega⟩⟩
  · exact .inr ⟨⟨hmhash, by omega, by omega⟩, ⟨hnhash, by omega, by omega⟩⟩

/-- An ambiguous address shows at the start of a method. -/
theorem exists_ok_of_starts
    (h : ∀ m ∈ methods, ∃ found, resolve methods hash m.start = .ok found) (ip : Nat) :
    ∃ found, resolve methods hash ip = .ok found := by
  rw [exists_ok_iff, exists_error_iff]
  rintro ⟨i, j, m, n, hij, hi, hj, hm, hn⟩
  rcases hm.at_start hn with ⟨hm, hn⟩ | ⟨hm, hn⟩
  · exact exists_ok_iff.1 (h m (List.mem_of_getElem? hi))
      (exists_error_iff.2 ⟨i, j, m, n, hij, hi, hj, hm, hn⟩)
  · exact exists_ok_iff.1 (h n (List.mem_of_getElem? hj))
      (exists_error_iff.2 ⟨i, j, m, n, hij, hi, hj, hm, hn⟩)

theorem forall_exists_ok_iff :
    (∀ ip, ∃ found, resolve methods hash ip = .ok found) ↔
      ∀ (i j : Nat) m n, i ≠ j → methods[i]? = some m → methods[j]? = some n →
        m.scriptHash = hash → n.scriptHash = hash →
        Disjoint (Set.Icc m.start m.stop) (Set.Icc n.start n.stop) := by
  simp only [exists_ok_iff, exists_error_iff]
  constructor
  · intro h i j m n hij hi hj hm hn
    rw [Set.disjoint_left]
    intro ip hmip hnip
    exact h ip ⟨i, j, m, n, hij, hi, hj, ⟨hm, hmip⟩, ⟨hn, hnip⟩⟩
  · rintro h ip ⟨i, j, m, n, hij, hi, hj, ⟨hm, hmip⟩, ⟨hn, hnip⟩⟩
    exact Set.disjoint_left.1 (h i j m n hij hi hj hm hn) hmip hnip

theorem sameFound_of_perm (h : methods.Perm others) :
    SameFound (resolve methods hash ip) (resolve others hash ip) := by
  have hclaiming : (claiming methods hash ip).Perm (claiming others hash ip) := h.filter _
  rw [resolve_eq_only_claiming, resolve_eq_only_claiming]
  match claiming methods hash ip, claiming others hash ip, hclaiming with
  | [], [], _ => exact .found none
  | [m], [n], hperm =>
    obtain rfl : m = n := List.singleton_perm_singleton.1 hperm
    exact .found (some m)
  | m :: n :: rest, m' :: n' :: rest', hperm => exact .ambiguous (hperm.map Method.id)
  | [], _ :: _, hperm => exact absurd hperm.length_eq (by simp)
  | _ :: _, [], hperm => exact absurd hperm.length_eq (by simp)
  | [_], _ :: _ :: _, hperm => exact absurd hperm.length_eq (by simp)
  | _ :: _ :: _, [_], hperm => exact absurd hperm.length_eq (by simp)

theorem resolve_claimants (methods : List Method) (hash : ScriptHash) :
    (∀ ip, resolve methods hash ip = .ok none ↔
      ∀ (i : Nat) m, methods[i]? = some m → ¬m.Claims hash ip) ∧
    (∀ ip m, resolve methods hash ip = .ok (some m) ↔
      ∃ i : Nat, methods[i]? = some m ∧ m.Claims hash ip ∧
        ∀ (j : Nat) n, methods[j]? = some n → n.Claims hash ip → j = i) ∧
    (∀ ip a, resolve methods hash ip = .error a ↔
      ∃ places, Claimants methods hash ip places ∧ 2 ≤ places.length ∧
        a.scriptHash = hash ∧ a.address = ip ∧
        a.candidates.map some = places.map fun i => methods[i]?.map Method.id) ∧
    (∀ ip others, methods.Perm others →
      SameFound (resolve methods hash ip) (resolve others hash ip)) ∧
    ((∀ ip, ∃ found, resolve methods hash ip = .ok found) ↔
      ∀ (i j : Nat) m n, i ≠ j → methods[i]? = some m → methods[j]? = some n →
        m.scriptHash = hash → n.scriptHash = hash →
        Disjoint (Set.Icc m.start m.stop) (Set.Icc n.start n.stop)) ∧
    ((∀ m ∈ methods, ∃ found, resolve methods hash m.start = .ok found) →
      ∀ ip, ∃ found, resolve methods hash ip = .ok found) :=
  ⟨fun _ => resolve_eq_none_iff, fun _ _ => resolve_eq_some_iff, fun _ _ => resolve_eq_error_iff,
    fun _ _ => sameFound_of_perm, forall_exists_ok_iff, exists_ok_of_starts⟩

/-- Two ranges that meet at an inclusive end, one that ends before it starts, and another script. -/
theorem resolve_claimants_touching :
    let other : ScriptHash := ⟨List.replicate 20 7, rfl⟩
    let a : Method := ⟨"a", "", "A", 0, 9, [], [], none, [], .zero⟩
    let b : Method := ⟨"b", "", "B", 9, 20, [], [], none, [], .zero⟩
    let c : Method := ⟨"c", "", "C", 30, 5, [], [], none, [], .zero⟩
    let d : Method := ⟨"d", "", "D", 0, 20, [], [], none, [], other⟩
    let methods := [a, d, b, c]
    (∃ places, Claimants methods .zero 9 places ∧ 2 ≤ places.length ∧
        [some "a", some "b"] = places.map fun i => methods[i]?.map Method.id) ∧
      SameFound (resolve methods .zero 9) (resolve [b, a, d, c] .zero 9) ∧
      resolve [b, a, d, c] .zero 9 = .error ⟨.zero, 9, ["b", "a"]⟩ ∧
      ¬Disjoint (Set.Icc a.start a.stop) (Set.Icc b.start b.stop) ∧
      (∀ m ∈ [a, d, c], ∃ found, resolve [a, d, c] .zero m.start = .ok found) ∧
      ∀ ip, ∃ found, resolve [a, d, c] .zero ip = .ok found := by
  intro other a b c d methods
  obtain ⟨-, -, herror, hperm, -⟩ := resolve_claimants methods .zero
  obtain ⟨places, hplaces, hseveral, -, -, hids⟩ := (herror 9 ⟨.zero, 9, ["a", "b"]⟩).1 rfl
  have hstarts : ∀ m ∈ [a, d, c], ∃ found, resolve [a, d, c] .zero m.start = .ok found := by
    simp only [List.forall_mem_cons]
    exact ⟨⟨some a, rfl⟩, ⟨some a, rfl⟩, ⟨none, rfl⟩, by simp⟩
  refine ⟨⟨places, hplaces, hseveral, hids⟩, hperm 9 _ ?_, rfl, ?_, hstarts, ?_⟩
  · decide
  · intro hapart
    have hmeet : 9 ∈ Set.Icc a.start a.stop ∧ 9 ∈ Set.Icc b.start b.stop := by decide
    exact Set.disjoint_left.1 hapart hmeet.1 hmeet.2
  · exact (resolve_claimants [a, d, c] .zero).2.2.2.2.2 hstarts

end Method
end ScriptScope
