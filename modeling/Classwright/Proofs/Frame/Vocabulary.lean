import Mathlib.Algebra.Order.BigOperators.Group.List
import Mathlib.Order.OrderIsoNat
import Classwright.Proofs.Frame.Monotone

/-!
The classes of a vocabulary.

An analysis starts from the classes that a method names and makes others: the elements of arrays,
and the common superclasses of two. The name of a superclass may be that of an array, so a common
superclass may have more dimensions than the two it was made of. `Derives` is what can be made from
given names.

* `exists_dims_le`: no more dimensions are made than some bound. Beyond the dimensions of what is
  given, each class is the nearest common superclass of two others, and there are fewer of those
  than classes.
* `exists_ladder`: so merging goes down a ladder of finite height.
-/

namespace Classwright

open List

namespace Hierarchy

/-! ### Dimensions -/

/-- A class after `k` dimensions were taken off. -/
def elementAt : Nat → String → Option String
  | 0, a => some a
  | k + 1, a => (elementClass? a).bind (elementAt k)

variable {h : Hierarchy} {a b c e p q r : String} {j k m n : Nat} {names : List String}

@[simp] lemma isArrayClass_arrayOf (e : String) : isArrayClass (arrayOf e) = true :=
  isArrayClass_arrayClass _

lemma elementClass?_of_not_array (ha : isArrayClass a = false) : elementClass? a = none := by
  simp [elementClass?, ha]

lemma isArrayClass_of_elementClass? (he : elementClass? a = some e) : isArrayClass a = true := by
  by_contra ha
  rw [elementClass?_of_not_array (by simpa using ha)] at he
  cases he

lemma elementClass?_of_descriptorClass {cs : List Char} (hr : isReferenceDescriptor cs = .ok true)
    (hd : descriptorClass cs = .ok e) : elementClass? (arrayClass cs) = some e := by
  rw [elementClass?, isArrayClass_arrayClass, if_pos rfl, toList_arrayClass, tail_cons,
    Insn.ofDescriptor_of_descriptorClass hr hd]
  rfl

@[simp] lemma elementClass?_arrayOf (e : String) : elementClass? (arrayOf e) = some e := by
  obtain ⟨hr, hd⟩ := descriptorClass_classDescriptor e
  exact elementClass?_of_descriptorClass hr hd

lemma length_of_ofDescriptor {s : String} (hs : VType.ofDescriptor s = .ok (.ref e)) :
    e.length ≤ s.length := by
  unfold VType.ofDescriptor at hs
  split at hs
  · cases hs
  next c cs hcs =>
  split at hs
  case h_9 =>
    obtain ⟨inner, hinner, hs⟩ := Except.bind_eq_ok_iff.1 hs
    obtain rfl : inner = e := by simpa using Except.pure_eq_ok_iff.1 hs
    cases cs with
    | nil => cases hinner
    | cons d ds =>
      obtain rfl : String.ofList (d :: ds).dropLast = inner := by
        simpa [orBroken, inner?] using hinner
      rw [← String.length_toList (s := s), hcs]
      simp
      omega
  case h_10 =>
    obtain rfl : s = e := by simpa using hs
    rfl
  all_goals cases hs

/-- Taking off a dimension leaves a shorter name. -/
lemma length_of_elementClass? (he : elementClass? a = some e) : e.length < a.length := by
  obtain ⟨cs, rfl⟩ := eq_arrayClass_of_isArrayClass (isArrayClass_of_elementClass? he)
  rw [elementClass?, isArrayClass_arrayClass, if_pos rfl, toList_arrayClass, tail_cons,
    Option.bind_eq_some_iff] at he
  obtain ⟨v, hv, he⟩ := he
  rw [Except.toOption_eq_some_iff] at hv
  cases v with
  | ref c =>
    obtain rfl : c = e := by simpa [VType.class?] using he
    have := length_of_ofDescriptor hv
    simp only [arrayClass, String.length_ofList, length_cons] at this ⊢
    omega
  | _ => cases he

lemma le_length_of_elementAt (he : elementAt k a = some e) : k ≤ a.length := by
  induction k generalizing a with
  | zero => omega
  | succ k ih =>
    obtain ⟨b, hb, he⟩ := Option.bind_eq_some_iff.1 he
    have := length_of_elementClass? hb
    have := ih he
    omega

/-- A class that is no array has no elements. -/
lemma elementAt_of_not_array (ha : isArrayClass a = false) (he : elementAt k a = some e) :
    k = 0 ∧ e = a := by
  cases k with
  | zero => exact ⟨rfl, (Option.some.inj he).symm⟩
  | succ k => simp [elementAt, elementClass?_of_not_array ha] at he

/-- A class has one core that is no array. -/
lemma elementAt_unique (hb : elementAt j a = some b) (hc : elementAt k a = some c)
    (hnb : isArrayClass b = false) (hnc : isArrayClass c = false) : b = c := by
  induction j generalizing a k with
  | zero =>
    obtain rfl : a = b := Option.some.inj hb
    exact (elementAt_of_not_array hnb hc).2.symm
  | succ j ih =>
    cases k with
    | zero =>
      obtain rfl : a = c := Option.some.inj hc
      exact (elementAt_of_not_array hnc hb).2
    | succ k =>
      obtain ⟨e, he, hb⟩ := Option.bind_eq_some_iff.1 hb
      obtain ⟨e', he', hc⟩ := Option.bind_eq_some_iff.1 hc
      obtain rfl : e = e' := Option.some.inj (he.symm.trans he')
      exact ih hb hc

/-! ### Common superclasses -/

/-- What is `k` dimensions into a common superclass: as much is found there in the first class, or
the search met two classes `m` dimensions in whose common superclass is an array. -/
lemma elementAt_commonUpTo (hc : h.commonUpTo n a b = .ok c) (he : elementAt k c = some e) :
    (∃ e', elementAt k a = some e' ∧ (isArrayClass e = false → e = e' ∨ e = objectClass)) ∨
      ∃ m j p q, k = m + j ∧ elementAt m a = some p ∧ elementAt m b = some q ∧ p ≠ q ∧
        isArrayClass p = false ∧ isArrayClass q = false ∧ h.commonClass p q ≠ objectClass ∧
        elementAt j (h.commonClass p q) = some e := by
  have hroot {k : Nat} {e a : String} (he : elementAt k objectClass = some e) :
      ∃ e', elementAt k a = some e' ∧ (isArrayClass e = false → e = e' ∨ e = objectClass) := by
    obtain ⟨rfl, rfl⟩ := elementAt_of_not_array isArrayClass_objectClass he
    exact ⟨a, rfl, fun _ => .inr rfl⟩
  induction n generalizing a b c k with
  | zero =>
    obtain rfl : objectClass = c := by simpa [commonUpTo] using hc
    exact .inl (hroot he)
  | succ n ih =>
    obtain ⟨rfl, rfl⟩ | rfl | ⟨ca, cb, ea, eb, e', rfl, rfl, hra, hrb, hda, hdb, he', rfl⟩ |
      ⟨hab, hna, hnb, rfl⟩ := commonUpTo_cases hc
    · exact .inl ⟨e, he, fun _ => .inl rfl⟩
    · exact .inl (hroot he)
    · cases k with
      | zero =>
        obtain rfl : arrayOf e' = e := Option.some.inj he
        exact .inl ⟨_, rfl, by simp⟩
      | succ k =>
        have hea := elementClass?_of_descriptorClass hra hda
        have heb := elementClass?_of_descriptorClass hrb hdb
        simp only [elementAt, elementClass?_arrayOf, Option.bind_some] at he
        simp only [elementAt, hea, Option.bind_some]
        obtain hleft | ⟨m, j, p, q, rfl, hp, hq, hmeet⟩ := ih he' he
        · exact .inl hleft
        · refine .inr ⟨m + 1, j, p, q, by omega, ?_, ?_, hmeet⟩
          · simpa [elementAt, hea] using hp
          · simpa [elementAt, heb] using hq
    · by_cases hr : h.commonClass a b = objectClass
      · rw [hr] at he
        exact .inl (hroot he)
      · exact .inr ⟨0, k, a, b, by omega, rfl, rfl, hab, hna, hnb, hr, he⟩

/-! ### What can be made -/

/-- The classes that can be made from given ones, by taking elements of arrays and common
superclasses. -/
inductive Derives (h : Hierarchy) (names : List String) : String → Prop
  | given {a : String} (ha : a ∈ names) : Derives h names a
  | element {a e : String} (ha : Derives h names a) (he : elementClass? a = some e) :
      Derives h names e
  | common {a b c : String} (ha : Derives h names a) (hb : Derives h names b)
      (hc : h.common a b = .ok c) : Derives h names c

/-- The superclasses of known classes, and the root. -/
def supers (h : Hierarchy) : List String :=
  objectClass :: (h.declared ++ platform).map (·.2.super)

lemma up_mem_supers (h : Hierarchy) (a : String) : h.up a ∈ h.supers := by
  unfold up parent
  split_ifs with ha
  · exact ha ▸ mem_cons_self
  split
  · next super hsuper =>
    obtain ⟨info, hinfo, rfl⟩ := Option.map_eq_some_iff.1 hsuper
    split
    · exact mem_cons_self
    · exact mem_cons_of_mem _ (mem_map.2 ⟨(a, info), mem_of_lookup? hinfo, rfl⟩)
  · exact mem_cons_self

lemma Rises.mem_supers (hab : h.Rises a b) : b = a ∨ b ∈ h.supers := by
  obtain ⟨_ | n, rfl⟩ := hab
  · exact .inl rfl
  · exact .inr (Function.iterate_succ_apply' h.up n a ▸ up_mem_supers h _)

/-- A common superclass that is not the root is the first class or a superclass. -/
lemma commonClass_mem_supers (hh : h.Ending) (hc : h.commonClass p q ≠ objectClass) :
    h.commonClass p q = p ∨ h.commonClass p q ∈ h.supers :=
  (commonClass_joins (hh.rises _) (hh.rises _) hc).left.mem_supers

/-- A bound on the dimensions of given names and superclasses. -/
def givenDims (h : Hierarchy) (names : List String) : Nat :=
  ((names ++ h.supers).map String.length).sum

lemma le_givenDims (ha : a ∈ names ++ h.supers) (he : elementAt k a = some e) :
    k ≤ h.givenDims names :=
  (le_length_of_elementAt he).trans (le_sum_of_mem (mem_map_of_mem ha))

/-- A common superclass that is not the root has no more dimensions than superclasses have. -/
lemma le_givenDims_commonClass (names : List String) (hh : h.Ending) (hp : isArrayClass p = false)
    (hc : h.commonClass p q ≠ objectClass) (he : elementAt j (h.commonClass p q) = some e) :
    j ≤ h.givenDims names := by
  rcases commonClass_mem_supers hh hc with hcp | hs
  · rw [hcp] at he
    rw [(elementAt_of_not_array hp he).1]
    exact Nat.zero_le _
  · exact le_givenDims (mem_append_right _ hs) he

/-- What is found in given names and superclasses. -/
def cores (h : Hierarchy) (names : List String) : Finset String :=
  ((names ++ h.supers).flatMap fun a => (range (a.length + 1)).filterMap (elementAt · a)).toFinset

lemma mem_cores (ha : a ∈ names ++ h.supers) (he : elementAt k a = some e) : e ∈ h.cores names := by
  refine mem_toFinset.2 (mem_flatMap.2 ⟨a, ha, mem_filterMap.2 ⟨k, ?_, he⟩⟩)
  exact mem_range.2 (Nat.lt_succ_of_le (le_length_of_elementAt he))

/-- No new classes are made, arrays apart. -/
lemma Derives.mem_cores (hh : h.Ending) (ha : h.Derives names a) (he : elementAt k a = some e)
    (hne : isArrayClass e = false) : e ∈ h.cores names := by
  induction ha generalizing k e with
  | given ha => exact Hierarchy.mem_cores (mem_append_left _ ha) he
  | @element a b _ hb ih => exact ih (k := k + 1) (by simpa [elementAt, hb] using he) hne
  | @common a b c _ _ hc iha _ =>
    obtain ⟨e', he', hee'⟩ | ⟨m, j, p, q, rfl, hp, -, -, hnp, -, hr, hj⟩ :=
      elementAt_commonUpTo hc he
    · rcases hee' hne with rfl | rfl
      · exact iha he' hne
      · exact Hierarchy.mem_cores (k := 0) (mem_append_right _ mem_cons_self) rfl
    · rcases commonClass_mem_supers hh hr with hcp | hs
      · rw [hcp] at hj
        rw [(elementAt_of_not_array hnp hj).2]
        exact iha hp hnp
      · exact Hierarchy.mem_cores (mem_append_right _ hs) hj

/-- The classes `k` dimensions into what can be made, without arrays and the root. -/
def Core (h : Hierarchy) (names : List String) (k : Nat) (p : String) : Prop :=
  isArrayClass p = false ∧ p ≠ objectClass ∧ ∃ a, h.Derives names a ∧ elementAt k a = some p

lemma Core.pred (hp : h.Core names (k + 1) p) : h.Core names k p := by
  obtain ⟨hnot, hr, a, ha, he⟩ := hp
  obtain ⟨b, hb, he⟩ := Option.bind_eq_some_iff.1 he
  exact ⟨hnot, hr, b, ha.element hb, he⟩

/-- From some number of dimensions on, the classes are the same. -/
lemma exists_cores_stable (hh : h.Ending) (names : List String) :
    ∃ (k₀ : Nat) (R : Finset String), ∀ k, k₀ ≤ k → ∀ p, p ∈ R ↔ h.Core names k p := by
  classical
  let R (k : Nat) : Finset String := (h.cores names).filter (h.Core names k)
  have hanti : Antitone R := antitone_nat_of_succ_le fun k p hp => by
    obtain ⟨hmem, hcore⟩ := Finset.mem_filter.1 hp
    exact Finset.mem_filter.2 ⟨hmem, hcore.pred⟩
  obtain ⟨k₀, hk₀⟩ := WellFoundedGT.monotone_chain_condition (α := (Finset String)ᵒᵈ)
    ⟨fun k => OrderDual.toDual (R k), fun _ _ hij => hanti hij⟩
  refine ⟨k₀, R k₀, fun k hk p => ?_⟩
  have heq : R k₀ = R k := hk₀ k hk
  rw [heq]
  refine ⟨fun hp => (Finset.mem_filter.1 hp).2, fun hp => Finset.mem_filter.2 ⟨?_, hp⟩⟩
  obtain ⟨hnot, -, a, ha, he⟩ := hp
  exact ha.mem_cores hh he hnot

/-- A class that stays at all dimensions is in the nearest common superclass of two others that
do. -/
lemma Derives.exists_joins (hh : h.Ending) {k₀ : Nat} {R : Finset String}
    (hR : ∀ k, k₀ ≤ k → ∀ p, p ∈ R ↔ h.Core names k p) (ha : h.Derives names a)
    (hk : k₀ + h.givenDims names < k) (he : elementAt k a = some r) (hnot : isArrayClass r = false)
    (hr : r ≠ objectClass) : ∃ p ∈ R,
    ∃ q ∈ R, p ≠ q ∧ ∃ c j, h.Joins p q c ∧ elementAt j c = some r := by
  induction ha generalizing k with
  | given ha =>
    have := le_givenDims (h := h) (mem_append_left _ ha) he
    omega
  | @element a b _ hb ih => exact ih (k := k + 1) (by omega) (by simpa [elementAt, hb] using he)
  | @common a b c ha hb hc iha _ =>
    obtain ⟨e', he', hee'⟩ | ⟨m, j, p, q, rfl, hp, hq, hpq, hnp, hnq, hroot, hj⟩ :=
      elementAt_commonUpTo hc he
    · rcases hee' hnot with rfl | rfl
      · exact iha hk he'
      · exact absurd rfl hr
    · -- `p` and `q` are so many dimensions in that they stay for good.
      have hjoin := commonClass_joins (hh.rises _) (hh.rises _) hroot
      have hdims := le_givenDims_commonClass names hh hnp hroot hj
      have hbelow {x : String} (hx : h.Rises x (h.commonClass p q)) : x ≠ objectClass := by
        rintro rfl
        exact hroot hx.eq_root
      exact ⟨p, (hR m (by omega) p).2 ⟨hnp, hbelow hjoin.left, a, ha, hp⟩,
        q, (hR m (by omega) q).2 ⟨hnq, hbelow hjoin.right, b, hb, hq⟩, hpq, _, j, hjoin, hj⟩

/-- No class but the root stays at all dimensions. -/
lemma exists_no_core (hh : h.Ending) (names : List String) :
    ∃ k₀, ∀ k, k₀ ≤ k → ∀ p, ¬ h.Core names k p := by
  obtain ⟨k₀, R, hR⟩ := exists_cores_stable hh names
  refine ⟨k₀, fun k hk p hp => ?_⟩
  obtain ⟨T, hcard, hT⟩ := exists_card_lt hh ⟨p, (hR k hk p).2 hp⟩
  -- Each class is in a nearest common superclass, and no two are in the same.
  have hfrom : ∀ r ∈ R, ∃ c ∈ T, ∃ j, elementAt j c = some r := by
    intro r hr
    obtain ⟨hnot, hroot, a, ha, he⟩ := (hR (k₀ + h.givenDims names + 1) (by omega) r).1 hr
    obtain ⟨p, hp, q, hq, hpq, c, j, hc, hj⟩ := ha.exists_joins hh hR (by omega) he hnot hroot
    exact ⟨c, hT p hp q hq hpq c hc, j, hj⟩
  choose! c hc j hj using hfrom
  have hinj : Set.InjOn c R := by
    intro r hr s hs hcs
    have hs' := hj s hs
    rw [← hcs] at hs'
    exact elementAt_unique (hj r hr) hs' ((hR k₀ le_rfl r).1 hr).1 ((hR k₀ le_rfl s).1 hs).1
  have := Finset.card_le_card_of_injOn c hc hinj
  omega

/-- What can be made has a bounded number of dimensions. -/
lemma exists_dims_le (hh : h.Ending) (names : List String) :
    ∃ n, ∀ a, h.Derives names a → ∀ k e, elementAt k a = some e → k ≤ n := by
  obtain ⟨k₀, hk₀⟩ := exists_no_core hh names
  refine ⟨k₀ + h.givenDims names, fun a ha => ?_⟩
  induction ha with
  | given ha =>
    intro k e he
    exact (le_givenDims (mem_append_left _ ha) he).trans (Nat.le_add_left _ _)
  | @element a b _ hb ih =>
    intro k e he
    have := ih (k + 1) e (by simpa [elementAt, hb] using he)
    omega
  | @common a b c ha _ hc iha _ =>
    intro k e he
    obtain ⟨e', he', -⟩ | ⟨m, j, p, q, rfl, hp, -, -, hnp, -, hroot, hj⟩ :=
      elementAt_commonUpTo hc he
    · exact iha k e' he'
    · have hdims := le_givenDims_commonClass names hh hnp hroot hj
      -- From `k₀` on there is only the root to merge with.
      have hm : m < k₀ := by
        by_contra hm
        refine hk₀ m (by omega) p ⟨hnp, ?_, a, ha, hp⟩
        rintro rfl
        exact hroot (commonClass_joins (hh.rises _) (hh.rises _) hroot).left.eq_root
      omega

/-! ### Height -/

/-- The depth of a class is bounded. -/
lemma exists_depth_le (hh : h.Ending) : ∃ n, ∀ a, h.depth a ≤ n := by
  refine ⟨(h.supers.map h.depth).sum + 1, fun a => ?_⟩
  by_cases ha : a = objectClass
  · simp [ha]
  · rw [depth_eq (hh.rises a) ha]
    exact Nat.succ_le_succ (le_sum_of_mem (mem_map_of_mem (up_mem_supers h a)))

/-- How often a class of at most `d` dimensions can still be merged into another, if no class is
deeper than `n`. A class that is no array may become an array of one that is as deep. -/
noncomputable def height (h : Hierarchy) (n : Nat) : Nat → String → Nat
  | 0, a => if isArrayClass a then 1 else if a = objectClass then 0 else 1 + h.depth a
  | d + 1, a =>
    if isArrayClass a then
      (elementClass? a).elim 1 fun e => 1 + h.height n d e + if a = arrayOf e then 0 else 1
    else if a = objectClass then 0 else 1 + h.depth a + (d + 1) * (n + 3)

variable {d : Nat}

@[simp] lemma height_root : h.height n d objectClass = 0 := by
  cases d <;> simp [height, isArrayClass_objectClass]

lemma height_of_not_array (ha : isArrayClass a = false) (hr : a ≠ objectClass) :
    h.height n d a = 1 + h.depth a + d * (n + 3) := by
  cases d <;> simp [height, ha, hr]

lemma height_of_elementClass? (he : elementClass? a = some e) :
    h.height n (d + 1) a = 1 + h.height n d e + if a = arrayOf e then 0 else 1 := by
  simp [height, isArrayClass_of_elementClass? he, he]

lemma height_pos (hr : a ≠ objectClass) : 0 < h.height n d a := by
  cases ha : isArrayClass a with
  | false =>
    rw [height_of_not_array ha hr]
    omega
  | true =>
    cases d with
    | zero => simp [height, ha]
    | succ d =>
      cases he : elementClass? a with
      | none => simp [height, ha, he]
      | some e =>
        rw [height_of_elementClass? he]
        omega

/-- An array is lower than any class that is no array and not the root. -/
lemma height_le (hn : ∀ a, h.depth a ≤ n) (a : String) :
    h.height n d a ≤ (if isArrayClass a then 1 else n + 1) + d * (n + 3) := by
  induction d generalizing a with
  | zero =>
    have := hn a
    simp only [height]
    split_ifs <;> omega
  | succ d ih =>
    have := hn a
    have helement (e : String) : h.height n d e ≤ n + 1 + d * (n + 3) := by
      have := ih e
      split_ifs at this <;> omega
    cases he : elementClass? a with
    | none =>
      simp only [height, he, Option.elim_none]
      split_ifs <;> omega
    | some e =>
      have := helement e
      rw [height_of_elementClass? he, isArrayClass_of_elementClass? he, if_pos rfl, Nat.add_mul]
      split_ifs <;> omega

/-- A common superclass that is new is lower. -/
lemma height_commonUpTo_lt (hh : h.Ending) (hn : ∀ a, h.depth a ≤ n)
    (hd : ∀ k e, elementAt k a = some e → k ≤ d) (hc : h.commonUpTo m a b = .ok c) (hca : c ≠ a) :
    h.height n d c < h.height n d a := by
  induction m generalizing a b c d with
  | zero =>
    obtain rfl : objectClass = c := by simpa [commonUpTo] using hc
    rw [height_root]
    exact height_pos hca.symm
  | succ m ih =>
    obtain ⟨-, hac⟩ | rfl | ⟨ca, _, ea, _, e, rfl, -, hra, -, hda, -, he, rfl⟩ | ⟨-, hna, -, rfl⟩ :=
      commonUpTo_cases hc
    · exact absurd hac hca
    · rw [height_root]
      exact height_pos hca.symm
    · -- The elements are merged. If that changes nothing, the name was written in another way.
      have hea := elementClass?_of_descriptorClass hra hda
      have hdims : 1 ≤ d := hd 1 ea (by simp [elementAt, hea])
      obtain ⟨d, rfl⟩ := Nat.exists_eq_add_of_le' hdims
      rw [height_of_elementClass? (elementClass?_arrayOf e), height_of_elementClass? hea,
        if_pos rfl]
      by_cases hee : e = ea
      · rw [if_neg (hee ▸ hca.symm), hee]
        omega
      · have hlt : h.height n d e < h.height n d ea := by
          refine ih (fun k x hx => ?_) he hee
          have := hd (k + 1) x (by simpa [elementAt, hea] using hx)
          omega
        omega
    · by_cases hr : h.commonClass a b = objectClass
      · rw [hr, height_root]
        exact height_pos (hr ▸ hca.symm)
      have hrises := (commonClass_joins (hh.rises _) (hh.rises _) hr).left
      have hra : a ≠ objectClass := by
        rintro rfl
        exact hr hrises.eq_root
      have hlt : h.depth (h.commonClass a b) < h.depth a :=
        (hrises.depth_lt (hh.rises _)).resolve_left hca.symm
      rw [height_of_not_array hna hra]
      cases harray : isArrayClass (h.commonClass a b) with
      | true =>
        have := height_le (d := d) hn (h.commonClass a b)
        rw [harray, if_pos rfl] at this
        omega
      | false =>
        rw [height_of_not_array harray hr]
        omega

/-- Classes on a ladder of finite height, which merging goes down. -/
structure Ladder (h : Hierarchy) (N : String → Prop) where
  height : String → Nat
  top : Nat
  le_top : ∀ a, height a ≤ top
  closed : ∀ {a b c}, N a → N b → h.common a b = .ok c → N c
  lt : ∀ {a b c}, N a → h.common a b = .ok c → c ≠ a → height c < height a

/-- What can be made from given classes is on a ladder. -/
lemma exists_ladder (hh : h.Ending) (names : List String) :
    Nonempty (h.Ladder (h.Derives names)) := by
  obtain ⟨n, hn⟩ := exists_depth_le hh
  obtain ⟨d, hd⟩ := exists_dims_le hh names
  exact ⟨{
    height := h.height n d
    top := n + 1 + d * (n + 3)
    le_top := fun a => (height_le hn a).trans (by split_ifs <;> omega)
    closed := .common
    lt := fun ha hc hca => height_commonUpTo_lt hh hn (hd _ ha) hc hca }⟩

end Hierarchy

end Classwright
