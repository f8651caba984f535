import Mathlib.Data.Finset.Max
import Mathlib.Tactic
import Classwright.Frame.Hierarchy

/-!
Superclass chains.

A class has one superclass, so the classes above it form a chain. Where the chains of two classes
meet is their nearest common superclass.

* `Hierarchy.Ends`: the superclasses of a class end at the root or at a class that is not known.
* `Hierarchy.Rises`: one class is another or one of its superclasses.
* `Hierarchy.Joins`: a class is the nearest common superclass of two.
* `Hierarchy.commonClass_joins`: what `commonClass` finds, unless it is the root.
* `Hierarchy.exists_card_lt`: classes have fewer nearest common superclasses than there are classes.
-/

namespace Classwright

namespace Hierarchy

/-- Superclasses from a class on end at the root or at a class that is not known. Their names may be
those of arrays. -/
inductive Ends (h : Hierarchy) : String → Prop
  | root : Ends h objectClass
  | unknown {a : String} (ha : h.super? a = none) : Ends h a
  | step {a s : String} (ha : h.super? a = some s) (hs : Ends h s) : Ends h a

/-- Superclasses end, from each class on. -/
def Ending (h : Hierarchy) : Prop := ∀ a, h.Ends a

/-- Neither an array nor an interface. -/
def IsClass (h : Hierarchy) (a : String) : Prop := isArrayClass a = false ∧ h.isInterface a = false

instance (h : Hierarchy) (a : String) : Decidable (h.IsClass a) :=
  inferInstanceAs (Decidable (_ ∧ _))

/-- The class above another; the root is above itself. -/
def up (h : Hierarchy) (a : String) : String := if a = objectClass then a else h.parent a

/-- `b` is `a` or above it. -/
def Rises (h : Hierarchy) (a b : String) : Prop := ∃ n, h.up^[n] a = b

variable {h : Hierarchy} {a b c d p q : String} {n : Nat}

lemma mem_of_lookup {α β : Type} [BEq α] [LawfulBEq α] {a : α} {b : β} {l : List (α × β)}
    (h : l.lookup a = some b) : (a, b) ∈ l := by
  induction l with
  | nil => simp at h
  | cons x l ih =>
    obtain ⟨a', b'⟩ := x
    rw [List.lookup_cons] at h
    split at h
    · next he =>
      obtain rfl := eq_of_beq he
      obtain rfl := Option.some.inj h
      exact List.mem_cons_self
    · exact List.mem_cons_of_mem _ (ih h)

/-- A class that is known is declared or one of the platform. -/
lemma mem_of_lookup? {info : ClassInfo} (ha : h.lookup? a = some info) :
    (a, info) ∈ h.declared ++ platform := by
  rw [lookup?, Option.orElse_eq_orElse, Option.orElse_eq_or, Option.or_eq_some_iff] at ha
  rcases ha with hd | ⟨-, hp⟩
  · exact List.mem_append_left _ (mem_of_lookup hd)
  · exact List.mem_append_right _ (mem_of_lookup hp)

@[simp] lemma up_root : h.up objectClass = objectClass := if_pos rfl

lemma up_of_ne (ha : a ≠ objectClass) : h.up a = h.parent a := if_neg ha

namespace Rises

lemma refl (a : String) : h.Rises a a := ⟨0, rfl⟩

lemma trans (hab : h.Rises a b) (hbc : h.Rises b c) : h.Rises a c := by
  obtain ⟨n, rfl⟩ := hab
  obtain ⟨m, rfl⟩ := hbc
  exact ⟨m + n, Function.iterate_add_apply _ m n a⟩

lemma of_up (hab : h.Rises (h.up a) b) : h.Rises a b := by
  obtain ⟨n, hn⟩ := hab
  exact ⟨n + 1, hn⟩

lemma eq_or_up (hab : h.Rises a b) : a = b ∨ h.Rises (h.up a) b := by
  obtain ⟨n, hn⟩ := hab
  cases n with
  | zero => exact .inl hn
  | succ n => exact .inr ⟨n, hn⟩

/-- Nothing else is above the root. -/
lemma eq_root (hb : h.Rises objectClass b) : b = objectClass := by
  obtain ⟨n, rfl⟩ := hb
  exact Function.iterate_fixed up_root n

/-- What is above a class is a chain. -/
lemma total (hb : h.Rises a b) (hc : h.Rises a c) : h.Rises b c ∨ h.Rises c b := by
  obtain ⟨n, rfl⟩ := hb
  obtain ⟨m, rfl⟩ := hc
  rcases le_total n m with hle | hle
  · obtain ⟨k, rfl⟩ := Nat.exists_eq_add_of_le' hle
    exact .inl ⟨k, (Function.iterate_add_apply _ k n a).symm⟩
  · obtain ⟨k, rfl⟩ := Nat.exists_eq_add_of_le' hle
    exact .inr ⟨k, (Function.iterate_add_apply _ k m a).symm⟩

end Rises

lemma Ends.rises (ha : h.Ends a) : h.Rises a objectClass := by
  induction ha with
  | root => exact .refl _
  | unknown ha => exact ⟨1, by simp [up, Hierarchy.parent, ha]⟩
  | @step a s ha hs ih =>
    refine .of_up ?_
    simp only [up, Hierarchy.parent, ha]
    split_ifs with hr
    · exact hr ▸ .refl _
    · exact .refl _
    · exact ih

lemma Ending.rises (hh : h.Ending) (a : String) : h.Rises a objectClass := (hh a).rises

/-- Superclasses of classes end at the root, and an array among them is right below it. -/
structure Grounded (h : Hierarchy) : Prop where
  rises : ∀ {a}, isArrayClass a = false → h.Rises a objectClass
  array : ∀ {a}, isArrayClass a = false → isArrayClass (h.parent a) = true →
    h.parent (h.parent a) = objectClass

/-- What is above a class is below the root if the class is. -/
lemma Rises.root (ha : h.Rises a objectClass) (hab : h.Rises a b) : h.Rises b objectClass := by
  rcases hab.total ha with hb | hb
  · exact hb
  · exact hb.eq_root ▸ .refl _

/-! ### Depth -/

/-- How far a class is from the root. -/
noncomputable def depth (h : Hierarchy) (a : String) : Nat := sInf {n | h.up^[n] a = objectClass}

lemma iterate_depth (ha : h.Rises a objectClass) : h.up^[h.depth a] a = objectClass :=
  Nat.sInf_mem (s := {n | h.up^[n] a = objectClass}) ha

@[simp] lemma depth_root : h.depth objectClass = 0 := Nat.sInf_eq_zero.2 (.inl rfl)

lemma depth_eq (ha : h.Rises a objectClass) (hne : a ≠ objectClass) :
    h.depth a = h.depth (h.up a) + 1 := by
  refine le_antisymm (Nat.sInf_le (iterate_depth (ha.eq_or_up.resolve_left hne))) ?_
  have hmem := iterate_depth ha
  have hne : h.depth a ≠ 0 := fun hd => hne (by rwa [hd] at hmem)
  obtain ⟨k, hk⟩ := Nat.exists_eq_succ_of_ne_zero hne
  rw [hk] at hmem ⊢
  exact Nat.succ_le_succ (Nat.sInf_le hmem)

/-- Depth falls along a chain. -/
lemma Rises.depth_lt (hab : h.Rises a b) (ha : h.Rises a objectClass) :
    a = b ∨ h.depth b < h.depth a := by
  obtain ⟨n, hn⟩ := hab
  induction n generalizing a with
  | zero => exact .inl hn
  | succ n ih =>
    by_cases hne : a = objectClass
    · exact .inl (hne.trans (Rises.eq_root ⟨n + 1, hne ▸ hn⟩).symm)
    · have hdepth := depth_eq ha hne
      rcases ih (ha.eq_or_up.resolve_left hne) hn with hup | hlt
      · rw [hup] at hdepth
        exact .inr (by omega)
      · exact .inr (by omega)

lemma Rises.antisymm (hab : h.Rises a b) (ha : h.Rises a objectClass) (hba : h.Rises b a) :
    a = b := by
  rcases hab.depth_lt ha with he | hlt
  · exact he
  · rcases hba.depth_lt (ha.root hab) with he | hlt'
    · exact he.symm
    · omega

/-! ### Nearest common superclasses -/

/-- `c` is above `a` and `b` and below all that is. -/
structure Joins (h : Hierarchy) (a b c : String) : Prop where
  left : h.Rises a c
  right : h.Rises b c
  least : ∀ d, h.Rises a d → h.Rises b d → h.Rises c d

lemma Joins.symm (hc : h.Joins a b c) : h.Joins b a c :=
  ⟨hc.right, hc.left, fun d hb ha => hc.least d ha hb⟩

lemma Joins.unique (hh : h.Ending) (hc : h.Joins a b c) (hd : h.Joins a b d) : c = d :=
  (hc.least d hd.left hd.right).antisymm (hh.rises c) (hd.least c hc.left hc.right)

lemma exists_joins (hh : h.Ending) (a b : String) : ∃ c, h.Joins a b c := by
  obtain ⟨n, hn⟩ := (hh a).rises
  induction n generalizing a with
  | zero =>
    exact ⟨objectClass, ⟨0, hn⟩, (hh b).rises, fun d had _ => (show a = objectClass from hn) ▸ had⟩
  | succ n ih =>
    by_cases hb : h.Rises b a
    · exact ⟨a, .refl a, hb, fun _ ha _ => ha⟩
    · obtain ⟨c, hc⟩ := ih (h.up a) hn
      refine ⟨c, hc.left.of_up, hc.right, fun d had hbd => ?_⟩
      rcases had.eq_or_up with rfl | had
      · exact absurd hbd hb
      · exact hc.least d had hbd

/-- Of the classes where the chains of others meet that of `a`, all but the lowest are where they
meet the chain of the class of the lowest. -/
lemma Joins.shift (hh : h.Ending) (hc : h.Joins a b c) (hd : h.Joins a q d) (hcd : h.Rises c d)
    (hne : c ≠ d) : h.Joins b q d := by
  refine ⟨hc.right.trans hcd, hd.right, fun e hbe hqe => ?_⟩
  rcases hc.right.total hbe with hce | hec
  · exact hd.least e (hc.left.trans hce) hqe
  · have hdc : h.Rises d c := hd.least c hc.left (hqe.trans hec)
    exact absurd (hcd.antisymm (hh.rises c) hdc) hne

/-- Classes have fewer nearest common superclasses than there are classes. -/
lemma exists_card_lt (hh : h.Ending) {R : Finset String} (hR : R.Nonempty) :
    ∃ T : Finset String, T.card < R.card ∧
    ∀ p ∈ R, ∀ q ∈ R, p ≠ q → ∀ c, h.Joins p q c → c ∈ T := by
  -- A further class brings one more: the lowest of those it has with the others.
  induction hR using Finset.Nonempty.cons_induction with
  | singleton a => exact ⟨∅, by simp, by simp⟩
  | cons a R ha hR ih =>
    obtain ⟨T, hcard, hT⟩ := ih
    choose j hj using fun b => exists_joins hh a b
    obtain ⟨b, hb, hmax⟩ := R.exists_max_image (fun b => h.depth (j b)) hR
    have hnew : ∀ q ∈ R, j q ∈ insert (j b) T := by
      intro q hq
      by_cases he : j b = j q
      · simp [he]
      have hrise : h.Rises (j b) (j q) := by
        rcases (hj b).left.total (hj q).left with hrise | hrise
        · exact hrise
        · rcases hrise.depth_lt (hh.rises _) with he' | hlt
          · exact absurd he'.symm he
          · exact absurd (hmax q hq) (by omega)
      have hbq : b ≠ q := fun hbq => he (by rw [hbq])
      exact Finset.mem_insert_of_mem (hT b hb q hq hbq _ ((hj b).shift hh (hj q) hrise he))
    refine ⟨insert (j b) T, ?_, ?_⟩
    · rw [Finset.card_cons]
      exact (Finset.card_insert_le _ _).trans_lt (by omega)
    · intro p hp q hq hpq c hc
      rcases Finset.mem_cons.1 hp with rfl | hpR
      · rcases Finset.mem_cons.1 hq with rfl | hq
        · exact absurd rfl hpq
        · exact (hj q).unique hh hc ▸ hnew q hq
      · rcases Finset.mem_cons.1 hq with rfl | hq
        · exact (hj p).unique hh hc.symm ▸ hnew p hpR
        · exact Finset.mem_insert_of_mem (hT p hpR q hq hpq c hc)

/-! ### What the search finds -/

lemma mem_ancestorsUpTo_iff : b ∈ h.ancestorsUpTo n a ↔ ∃ k, k ≤ n ∧ h.up^[k] a = b := by
  induction n generalizing a with
  | zero => simp [ancestorsUpTo, eq_comm]
  | succ n ih =>
    rw [ancestorsUpTo]
    split_ifs with ha
    · subst ha
      simp only [Function.iterate_fixed up_root, List.mem_singleton]
      exact ⟨fun hb => ⟨0, by omega, hb.symm⟩, by rintro ⟨_, -, rfl⟩; rfl⟩
    · rw [List.mem_cons, ← up_of_ne ha, ih]
      constructor
      · rintro (rfl | ⟨k, hk, hb⟩)
        · exact ⟨0, by omega, rfl⟩
        · exact ⟨k + 1, by omega, hb⟩
      · rintro ⟨_ | k, hk, hb⟩
        · exact .inl hb.symm
        · exact .inr ⟨k, by omega, hb⟩

lemma rises_of_mem_ancestorsUpTo (hb : b ∈ h.ancestorsUpTo n a) : h.Rises a b :=
  (mem_ancestorsUpTo_iff.1 hb).imp fun _ hk => hk.2

/-- A class below one of a chain is one of the chain. -/
lemma mem_ancestorsUpTo (ha : h.Rises a objectClass) (hc : c ∈ h.ancestorsUpTo n a)
    (hab : h.Rises a b) (hbc : h.Rises b c) : b ∈ h.ancestorsUpTo n a := by
  have hb := ha.root hab
  obtain ⟨k, rfl⟩ := hab
  obtain ⟨j, hj, rfl⟩ := mem_ancestorsUpTo_iff.1 hc
  by_cases hkj : k ≤ j
  · exact mem_ancestorsUpTo_iff.2 ⟨k, by omega, rfl⟩
  · obtain ⟨i, rfl⟩ := Nat.exists_eq_add_of_le' (Nat.le_of_not_le hkj)
    have hcb : h.Rises (h.up^[j] a) (h.up^[i + j] a) :=
      ⟨i, (Function.iterate_add_apply _ i j a).symm⟩
    exact hbc.antisymm hb hcb ▸ hc

lemma pairwise_ancestorsUpTo : (h.ancestorsUpTo n a).Pairwise h.Rises := by
  induction n generalizing a with
  | zero => simp [ancestorsUpTo]
  | succ n ih =>
    rw [ancestorsUpTo]
    split_ifs with ha
    · simp
    · rw [← up_of_ne ha]
      exact .cons (fun b hb => (rises_of_mem_ancestorsUpTo hb).of_up) ih

/-- What is found is the nearest common superclass. -/
lemma joins_of_find? (ha : h.Rises a objectClass) (hb : h.Rises b objectClass)
    (hfind : (h.ancestors b).find? (h.ancestors a).contains = some c) : h.Joins a b c := by
  obtain ⟨hca, before, behind, hchain, hbefore⟩ := List.find?_eq_some_iff_append.1 hfind
  rw [List.contains_iff_mem] at hca
  have hpairs : (before ++ c :: behind).Pairwise h.Rises := hchain ▸ pairwise_ancestorsUpTo
  have hcb : c ∈ h.ancestors b := by simp [hchain]
  refine ⟨rises_of_mem_ancestorsUpTo hca, rises_of_mem_ancestorsUpTo hcb, fun d had hbd => ?_⟩
  rcases (rises_of_mem_ancestorsUpTo hca).total had with hcd | hdc
  · exact hcd
  -- A class below it would have been found first.
  have hda : d ∈ h.ancestors a := mem_ancestorsUpTo ha hca had hdc
  have hdb : d ∈ before ++ c :: behind := hchain ▸ mem_ancestorsUpTo hb hcb hbd hdc
  rcases List.mem_append.1 hdb with hd | hd
  · exact absurd hda (by simpa using hbefore d hd)
  · rcases List.mem_cons.1 hd with rfl | hd
    · exact .refl _
    · exact (List.pairwise_cons.1 (List.pairwise_append.1 hpairs).2.1).1 d hd

lemma commonClass_joins (ha : h.Rises a objectClass) (hb : h.Rises b objectClass)
    (hc : h.commonClass a b ≠ objectClass) : h.Joins a b (h.commonClass a b) := by
  unfold commonClass at hc ⊢
  split_ifs at hc ⊢
  · exact absurd rfl hc
  dsimp only at hc ⊢
  cases hfind : (h.ancestors b).find? (h.ancestors a).contains with
  | none =>
    rw [hfind] at hc
    exact absurd rfl hc
  | some c => exact joins_of_find? ha hb hfind

end Hierarchy

end Classwright
