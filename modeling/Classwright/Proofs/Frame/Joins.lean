import Classwright.Proofs.Frame.Order
import Classwright.Proofs.Frame.Subclasses

/-!
Common superclasses are joins.

Classes are ordered along their superclasses, arrays by their elements, and all are below the root
(`Hierarchy.Tops`). An interface is below itself and the root only. In a hierarchy of shallow
classes two types have a least upper bound, which is what `common` finds (`commonUpTo_bounds`). So
merging does not depend on the order of what is merged: `common_join`.
-/

namespace Classwright.Hierarchy

/-- A name of a class or interface, or a descriptor of an array. -/
inductive Reference : String → Prop
  | name {a : String} (ha : isArrayClass a = false) : Reference a
  | primitives {cs : List Char} (hcs : isReferenceDescriptor cs = .ok false) :
      Reference (arrayClass cs)
  | array {e : String} (he : Reference e) : Reference (arrayOf e)

/-- Classes extend classes, and come to the root in fewer steps than the search takes. -/
structure Shallow (h : Hierarchy) : Prop where
  steps : ∀ {a}, h.IsClass a → ∃ n, n < 63 ∧ h.up^[n] a = objectClass
  parent : ∀ {a}, h.IsClass a → h.IsClass (h.parent a)

/-- The order of types. -/
inductive Tops (h : Hierarchy) : String → String → Prop
  | refl (a : String) : Tops h a a
  | root (a : String) : Tops h a objectClass
  | rises {a b : String} (ha : h.IsClass a) (hab : h.Rises a b) : Tops h a b
  | array {a b : String} (hab : Tops h a b) : Tops h (arrayOf a) (arrayOf b)

/-- `c` is above `a` and `b` and below all that is. -/
structure Bounds (h : Hierarchy) (a b c : String) : Prop where
  left : h.Tops a c
  right : h.Tops b c
  least : ∀ {d}, h.Tops a d → h.Tops b d → h.Tops c d

variable {h : Hierarchy} {a b c d : String} {cs ds : List Char} {n : Nat} {supers : List String}

lemma arrayOf_inj (he : arrayOf a = arrayOf b) : a = b := by
  have hd := (descriptorClass_classDescriptor a).2
  rw [arrayClass_inj he, (descriptorClass_classDescriptor b).2] at hd
  exact (Except.ok.inj hd).symm

lemma length_lt_arrayOf (a : String) : a.length < (arrayOf a).length := by
  have hone : "[".length = 1 := rfl
  rw [← append_classDescriptor, String.length_append, classDescriptor]
  split
  · omega
  · simp only [String.length_append]
    omega

lemma not_isClass_arrayClass : ¬ h.IsClass (arrayClass cs) := fun hc => by simp [IsClass] at hc

/-! ### The order -/

lemma Tops.eq_root (hd : h.Tops a d) (ha : a = objectClass) : d = objectClass := by
  cases hd with
  | refl => exact ha
  | root => rfl
  | rises _ hrise => exact (ha ▸ hrise).eq_root
  | array => exact absurd ha (arrayClass_ne_objectClass _)

lemma Tops.of_array (hd : h.Tops (arrayOf a) d) :
    d = objectClass ∨ ∃ b, d = arrayOf b ∧ h.Tops a b := by
  generalize hx : arrayOf a = x at hd
  cases hd with
  | refl => exact .inr ⟨a, hx.symm, .refl a⟩
  | root => exact .inl rfl
  | rises hc _ => exact absurd (hx ▸ hc) not_isClass_arrayClass
  | @array a' b hab => exact .inr ⟨b, rfl, arrayOf_inj hx ▸ hab⟩

lemma Tops.of_primitives (hcs : isReferenceDescriptor cs = .ok false)
    (hd : h.Tops (arrayClass cs) d) : d = objectClass ∨ d = arrayClass cs := by
  generalize hx : arrayClass cs = x at hd
  cases hd with
  | refl => exact .inr rfl
  | root => exact .inl rfl
  | rises hc _ => exact absurd (hx ▸ hc) not_isClass_arrayClass
  | @array a' b hab =>
    rw [arrayClass_inj hx, (descriptorClass_classDescriptor a').1] at hcs
    cases hcs

lemma Tops.of_interface (ha : isArrayClass a = false) (hi : h.isInterface a = true)
    (hd : h.Tops a d) : d = objectClass ∨ d = a := by
  cases hd with
  | refl => exact .inr rfl
  | root => exact .inl rfl
  | rises hc _ => simp [hc.2] at hi
  | array => simp [arrayOf] at ha

namespace Bounds

lemma self (a : String) : h.Bounds a a a := ⟨.refl a, .refl a, fun hd _ => hd⟩

lemma symm (hc : h.Bounds a b c) : h.Bounds b a c :=
  ⟨hc.right, hc.left, fun hb ha => hc.least ha hb⟩

end Bounds

lemma bounds_root (hd : ∀ {d}, h.Tops a d → h.Tops b d → d = objectClass) :
    h.Bounds a b objectClass :=
  ⟨.root a, .root b, fun ha hb => hd ha hb ▸ .refl _⟩

/-! ### What is found -/

lemma commonUpTo_names (hne : a ≠ b) (ha : isArrayClass a = false) (hb : isArrayClass b = false) :
    h.commonUpTo (n + 1) a b = .ok (h.commonClass a b) := by
  rw [commonUpTo, if_neg hne]
  split
  · next hca _ => simp [eq_arrayClass_of_toList hca] at ha
  · next hca _ => simp [eq_arrayClass_of_toList hca] at ha
  · next hcb _ => simp [eq_arrayClass_of_toList hcb] at hb
  · rfl

lemma commonUpTo_name_array (ha : isArrayClass a = false) :
    h.commonUpTo (n + 1) a (arrayClass cs) = .ok objectClass ∧
    h.commonUpTo (n + 1) (arrayClass cs) a = .ok objectClass := by
  have hne : a ≠ arrayClass cs := by
    rintro rfl
    simp at ha
  rw [commonUpTo, if_neg hne, commonUpTo, if_neg hne.symm]
  constructor
  · split
    · next hca _ => simp [eq_arrayClass_of_toList hca] at ha
    · rfl
    · rfl
    · next hcb _ => exact absurd (toList_arrayClass cs) (hcb cs)
  · split
    · next hca => simp [eq_arrayClass_of_toList hca] at ha
    · rfl
    · rfl
    · next hcb _ _ => exact absurd (toList_arrayClass cs) (hcb cs)

lemma commonUpTo_primitives (hne : cs ≠ ds) {r r' : Bool} (hcs : isReferenceDescriptor cs = .ok r)
    (hds : isReferenceDescriptor ds = .ok r') (hr : (r && r') = false) :
    h.commonUpTo (n + 1) (arrayClass cs) (arrayClass ds) = .ok objectClass := by
  rw [commonUpTo, if_neg fun he => hne (arrayClass_inj he)]
  simp only [toList_arrayClass, hcs, hds]
  cases r <;> cases r' <;> first | rfl | cases hr

lemma commonUpTo_arrayOf (hne : a ≠ b) :
    h.commonUpTo (n + 1) (arrayOf a) (arrayOf b) = (h.commonUpTo n a b).map arrayOf := by
  obtain ⟨hra, hda⟩ := descriptorClass_classDescriptor a
  obtain ⟨hrb, hdb⟩ := descriptorClass_classDescriptor b
  rw [commonUpTo, if_neg fun he => hne (arrayOf_inj he)]
  simp only [arrayOf, toList_arrayClass, hra, hrb, hda, hdb, append_classDescriptor]
  rfl

namespace Shallow

variable (hs : h.Shallow)

include hs

lemma rises_root (ha : h.IsClass a) : h.Rises a objectClass := by
  obtain ⟨n, -, hn⟩ := hs.steps ha
  exact ⟨n, hn⟩

lemma isClass (ha : h.IsClass a) (hab : h.Rises a b) : h.IsClass b := by
  obtain ⟨n, rfl⟩ := hab
  induction n generalizing a with
  | zero => exact ha
  | succ n ih =>
    refine ih (a := h.up a) ?_
    unfold up
    split
    · exact ha
    · exact hs.parent ha

/-- Above a class are the classes of its chain. -/
lemma rises (ha : h.IsClass a) (hd : h.Tops a d) : h.Rises a d := by
  cases hd with
  | refl => exact .refl a
  | root => exact hs.rises_root ha
  | rises _ hrise => exact hrise
  | array => exact absurd ha not_isClass_arrayClass

/-- No array is above a class or an interface. -/
lemma not_array (ha : isArrayClass a = false) (hd : h.Tops a d) : isArrayClass d = false := by
  cases hd with
  | refl => exact ha
  | root => exact isArrayClass_objectClass
  | rises hc hrise => exact (hs.isClass hc hrise).1
  | array => simp [arrayOf] at ha

lemma trans (hab : h.Tops a b) (hbc : h.Tops b c) : h.Tops a c := by
  induction hab generalizing c with
  | refl => exact hbc
  | root a => exact hbc.eq_root rfl ▸ .root a
  | rises ha hrise => exact .rises ha (hrise.trans (hs.rises (hs.isClass ha hrise) hbc))
  | array _ ih =>
    rcases hbc.of_array with rfl | ⟨c, rfl, hc⟩
    · exact .root _
    · exact .array (ih hc)

lemma antisymm (hab : h.Tops a b) (hba : h.Tops b a) : a = b := by
  induction hab with
  | refl => rfl
  | root a => exact hba.eq_root rfl
  | rises ha hrise => exact hrise.antisymm (hs.rises_root ha) (hs.rises (hs.isClass ha hrise) hba)
  | array _ ih =>
    rcases hba.of_array with he | ⟨_, he, hba⟩
    · exact absurd he (arrayClass_ne_objectClass _)
    · exact congrArg arrayOf (ih (arrayOf_inj he ▸ hba))

/-! ### Least upper bounds -/

/-- In the chains of classes the search goes as far as the root. -/
lemma commonClass_joins (ha : h.IsClass a) (hb : h.IsClass b) :
    h.Joins a b (h.commonClass a b) := by
  have hroot {x : String} (hx : h.IsClass x) : objectClass ∈ h.ancestors x := by
    obtain ⟨n, hn, hup⟩ := hs.steps hx
    exact mem_ancestorsUpTo_iff.2 ⟨n, hn.le, hup⟩
  simp only [commonClass, ha.2, hb.2, Bool.or_self, Bool.false_eq_true, if_false]
  cases hfind : (h.ancestors b).find? (h.ancestors a).contains with
  | none => simpa [hroot ha] using List.find?_eq_none.1 hfind _ (hroot hb)
  | some c => exact joins_of_find? (hs.rises_root ha) (hs.rises_root hb) hfind

/-- Different names that are not both of classes have the root in common only. -/
lemma eq_root_of_interface (ha : isArrayClass a = false) (hb : isArrayClass b = false) (hne : a ≠ b)
    (hi : h.isInterface a = true) (had : h.Tops a d) (hbd : h.Tops b d) : d = objectClass := by
  rcases had.of_interface ha hi with hd | rfl
  · exact hd
  cases hib : h.isInterface b with
  | true => exact (hbd.of_interface hb hib).resolve_right hne
  | false =>
    have hc := hs.isClass ⟨hb, hib⟩ (hs.rises ⟨hb, hib⟩ hbd)
    simp [hc.2] at hi

lemma bounds_commonClass (ha : isArrayClass a = false) (hb : isArrayClass b = false) (hne : a ≠ b) :
    h.Bounds a b (h.commonClass a b) := by
  cases hia : h.isInterface a with
  | true =>
    rw [commonClass, hia, Bool.true_or, if_pos rfl]
    exact bounds_root fun had hbd => hs.eq_root_of_interface ha hb hne hia had hbd
  | false =>
    cases hib : h.isInterface b with
    | true =>
      rw [commonClass, hib, Bool.or_true, if_pos rfl]
      exact bounds_root fun had hbd => hs.eq_root_of_interface hb ha hne.symm hib hbd had
    | false =>
      have hj := hs.commonClass_joins ⟨ha, hia⟩ ⟨hb, hib⟩
      refine ⟨.rises ⟨ha, hia⟩ hj.left, .rises ⟨hb, hib⟩ hj.right, fun {d} had hbd => ?_⟩
      exact .rises (hs.isClass ⟨ha, hia⟩ hj.left)
        (hj.least d (hs.rises ⟨ha, hia⟩ had) (hs.rises ⟨hb, hib⟩ hbd))

/-- No name is as an array is. -/
lemma bounds_name_array (ha : isArrayClass a = false) (hb : isArrayClass b = true) :
    h.Bounds a b objectClass := by
  refine bounds_root fun had hbd => ?_
  have hd := hs.not_array ha had
  cases hbd with
  | refl => simp [hb] at hd
  | root => rfl
  | rises hc _ => simp [hc.1] at hb
  | array => simp [arrayOf] at hd

/-- Arrays of primitives are as no other array is. -/
lemma bounds_primitives (hne : arrayClass cs ≠ b) (hcs : isReferenceDescriptor cs = .ok false)
    (hb : Reference b) : h.Bounds (arrayClass cs) b objectClass := by
  refine bounds_root fun had hbd => (had.of_primitives hcs).resolve_right ?_
  rintro rfl
  cases hb with
  | name hb => simpa using hs.not_array hb hbd
  | primitives hds => exact (hbd.of_primitives hds).elim (arrayClass_ne_objectClass _) hne
  | array =>
    rcases hbd.of_array with he | ⟨e, he, -⟩
    · exact arrayClass_ne_objectClass _ he
    · rw [arrayClass_inj he, (descriptorClass_classDescriptor e).1] at hcs
      cases hcs

/-- **What is found for two types is their least upper bound.** -/
lemma commonUpTo_bounds (ha : Reference a) (hb : Reference b) (hn : a.length < n) :
    ∃ c, h.commonUpTo n a b = .ok c ∧ Reference c ∧ h.Bounds a b c := by
  have hroot : Reference objectClass := .name isArrayClass_objectClass
  -- The elements of an array are shorter than its descriptor, so that the search has fuel for them.
  induction ha generalizing b n with
  | @name a ha =>
    obtain ⟨n, rfl⟩ := Nat.exists_eq_add_one_of_ne_zero (Nat.ne_zero_of_lt hn)
    cases hb with
    | name hb =>
      by_cases hne : a = b
      · exact ⟨a, if_pos hne, .name ha, hne ▸ .self a⟩
      have hc := hs.bounds_commonClass ha hb hne
      exact ⟨_, commonUpTo_names hne ha hb, .name (hs.not_array ha hc.left), hc⟩
    | primitives =>
      exact ⟨_, (commonUpTo_name_array ha).1, hroot, hs.bounds_name_array ha (by simp)⟩
    | array =>
      exact ⟨_, (commonUpTo_name_array ha).1, hroot, hs.bounds_name_array ha (by simp [arrayOf])⟩
  | @primitives cs hcs =>
    obtain ⟨n, rfl⟩ := Nat.exists_eq_add_one_of_ne_zero (Nat.ne_zero_of_lt hn)
    by_cases hne : arrayClass cs = b
    · exact ⟨_, if_pos hne, .primitives hcs, hne ▸ .self _⟩
    refine ⟨_, ?_, hroot, hs.bounds_primitives hne hcs hb⟩
    cases hb with
    | name hb => exact (commonUpTo_name_array hb).2
    | primitives hds => exact commonUpTo_primitives (fun he => hne (he ▸ rfl)) hcs hds rfl
    | @array e =>
      exact commonUpTo_primitives (fun he => hne (he ▸ rfl)) hcs
        (descriptorClass_classDescriptor e).1 rfl
  | @array e he ih =>
    obtain ⟨n, rfl⟩ := Nat.exists_eq_add_one_of_ne_zero (Nat.ne_zero_of_lt hn)
    cases hb with
    | name hb =>
      exact ⟨_, (commonUpTo_name_array hb).2, hroot,
        (hs.bounds_name_array hb (by simp [arrayOf])).symm⟩
    | @primitives ds hds =>
      have hne : arrayClass ds ≠ arrayOf e := by
        intro hd
        rw [arrayClass_inj hd, (descriptorClass_classDescriptor e).1] at hds
        cases hds
      refine ⟨_, ?_, hroot, (hs.bounds_primitives hne hds (.array he)).symm⟩
      exact commonUpTo_primitives (fun hd => hne (hd ▸ rfl))
        (descriptorClass_classDescriptor e).1 hds rfl
    | @array e' he' =>
      by_cases hne : e = e'
      · exact ⟨arrayOf e, if_pos (hne ▸ rfl), .array he, hne ▸ .self _⟩
      have hlt := length_lt_arrayOf e
      obtain ⟨c, hc, href, hbounds⟩ := ih (n := n) he' (by omega)
      refine ⟨arrayOf c, ?_, .array href, .array hbounds.left, .array hbounds.right,
        fun had hbd => ?_⟩
      · rw [commonUpTo_arrayOf hne, hc]
        rfl
      rcases had.of_array with rfl | ⟨x, rfl, hx⟩
      · exact .root _
      rcases hbd.of_array with hr | ⟨y, he, hy⟩
      · exact absurd hr (arrayClass_ne_objectClass _)
      · exact .array (hbounds.least hx (arrayOf_inj he ▸ hy))

lemma common_bounds (ha : Reference a) (hb : Reference b) :
    ∃ c, h.common a b = .ok c ∧ Reference c ∧ h.Bounds a b c :=
  hs.commonUpTo_bounds ha hb (by omega)

end Shallow

/-- **Common superclasses are joins**: idempotent, commutative and associative, and for two classes
the nearest of their common ancestors. -/
theorem common_join (hs : h.Shallow) :
    (∀ a, h.common a a = .ok a) ∧
    (∀ a b, Reference a → Reference b →
      ∃ c, Reference c ∧ h.common a b = .ok c ∧ h.common b a = .ok c) ∧
    (∀ a b c, Reference a → Reference b → Reference c →
      ∃ d, (h.common a b >>= fun x => h.common x c) = .ok d ∧
        (h.common b c >>= fun x => h.common a x) = .ok d) ∧
    ∀ a b, h.IsClass a → h.IsClass b → ∃ c, h.common a b = .ok c ∧ h.Joins a b c := by
  refine ⟨fun a => if_pos rfl, fun a b ha hb => ?_, fun a b c ha hb hc => ?_, fun a b ha hb => ?_⟩
  · obtain ⟨c, hab, hc, hbounds⟩ := hs.common_bounds ha hb
    obtain ⟨d, hba, -, hbounds'⟩ := hs.common_bounds hb ha
    obtain rfl : c = d := hs.antisymm (hbounds.least hbounds'.right hbounds'.left)
      (hbounds'.least hbounds.right hbounds.left)
    exact ⟨c, hc, hab, hba⟩
  · obtain ⟨x, hab, hx, hxb⟩ := hs.common_bounds ha hb
    obtain ⟨y, hbc, hy, hyb⟩ := hs.common_bounds hb hc
    obtain ⟨d, hxc, -, hd⟩ := hs.common_bounds hx hc
    obtain ⟨e, hay, -, he⟩ := hs.common_bounds ha hy
    have hde : h.Tops d e :=
      hd.least (hxb.least he.left (hs.trans hyb.left he.right)) (hs.trans hyb.right he.right)
    have hed : h.Tops e d :=
      he.least (hs.trans hxb.left hd.left) (hyb.least (hs.trans hxb.right hd.left) hd.right)
    obtain rfl := hs.antisymm hde hed
    exact ⟨d, by rw [hab]; exact hxc, by rw [hbc]; exact hay⟩
  · obtain ⟨c, hab, -, hc⟩ := hs.common_bounds (.name ha.1) (.name hb.1)
    have hac := hs.rises ha hc.left
    refine ⟨c, hab, hac, hs.rises hb hc.right, fun d had hbd => ?_⟩
    exact hs.rises (hs.isClass ha hac) (hc.least (.rises ha had) (.rises hb hbd))

/-- What holds of the root and of the superclasses that are given holds of all. -/
lemma parent_of_supers {P : String → Prop} (hroot : P objectClass)
    (hsupers : ∀ e ∈ h.declared ++ platform, e.2.super ∈ supers) (hP : ∀ s ∈ supers, s ≠ "" → P s)
    (a : String) : P (h.parent a) := by
  unfold parent
  split
  · next s hs =>
    obtain ⟨info, hinfo, rfl⟩ := Option.map_eq_some_iff.1 hs
    split
    · exact hroot
    · next hne => exact hP _ (hsupers _ (mem_of_lookup? hinfo)) (by simpa using hne)
  · exact hroot

/-- The superclasses of the platform come to the root in four steps. -/
lemma steps_of_supers (hsupers : ∀ e ∈ h.declared ++ platform, e.2.super ∈ supers)
    (hup : ∀ s ∈ supers, s ≠ "" → h.up^[4] s = objectClass) (a : String) :
    ∃ n, n < 63 ∧ h.up^[n] a = objectClass := by
  by_cases ha : a = objectClass
  · exact ⟨0, by omega, ha⟩
  · refine ⟨5, by omega, ?_⟩
    rw [Function.iterate_succ_apply, up_of_ne ha]
    exact parent_of_supers (P := fun x => h.up^[4] x = objectClass)
      (Function.iterate_fixed up_root 4) hsupers hup a

/-- The platform classes are shallow, so numbers have a nearest common superclass. -/
theorem common_join_numbers : ({} : Hierarchy).Shallow ∧
    ∃ c, ({} : Hierarchy).common "java/lang/Integer" "java/lang/Double" = .ok c ∧
      ({} : Hierarchy).Joins "java/lang/Integer" "java/lang/Double" c := by
  have hsupers : ∀ e ∈ ({} : Hierarchy).declared ++ platform, e.2.super ∈ platformSupers := by
    decide +kernel
  have hs : ({} : Hierarchy).Shallow := by
    refine ⟨fun _ => steps_of_supers hsupers (by decide +kernel) _, fun _ => ?_⟩
    exact parent_of_supers (P := ({} : Hierarchy).IsClass) (by decide +kernel) hsupers
      (by decide +kernel) _
  exact ⟨hs, (common_join hs).2.2.2 _ _ (by decide +kernel) (by decide +kernel)⟩

/-- Two classes that have an array as their superclass. -/
def arrayParents : Hierarchy := ⟨[("A", ⟨"[I", false⟩), ("B", ⟨"[I", false⟩)]⟩

/-- The array is found to be above both, though it is above no class when it is merged itself. -/
theorem common_arrayParents_not_associative :
    (∀ a, arrayParents.IsClass a → ∃ n, n < 63 ∧ arrayParents.up^[n] a = objectClass) ∧
    (∀ a, arrayParents.IsClass a → arrayParents.isInterface (arrayParents.parent a) = false) ∧
    (arrayParents.common "A" "A" >>= fun x => arrayParents.common x "B") = .ok "[I" ∧
    (arrayParents.common "A" "B" >>= fun x => arrayParents.common "A" x) = .ok objectClass := by
  have hsupers : ∀ e ∈ arrayParents.declared ++ platform, e.2.super ∈ "[I" :: platformSupers := by
    decide +kernel
  refine ⟨fun a _ => steps_of_supers hsupers (by decide +kernel) a, fun a _ => ?_,
    by decide +kernel, by decide +kernel⟩
  exact parent_of_supers (P := fun x => arrayParents.isInterface x = false)
    (by decide +kernel) hsupers (by decide +kernel) a

end Classwright.Hierarchy
