import Classwright.Frame.Analysis
import Classwright.Proofs.Frame.Ancestry
import Classwright.Proofs.Outcome

/-!
The order of verification types and frames.

* `Hierarchy.Under`: one class may stand for another, along superclasses and element types.
* `VType.Below`, `VType.Passes`: a value of one type may stand where another is expected, on the
  stack and in a local.
* `Hierarchy.Beneath`: as `Under`, but below an array are arrays only.
* `VType.Alike`: both are one type, or classes of which the first is beneath the second.
* `Frame.Rel`: a relation of types, value by value, between two frames.
* `Frame.merge_upper`: a merged frame covers the two it was made of.
-/

namespace Classwright

open List
open Classwright.Except (bind_eq_ok_iff pure_eq_ok_iff)

/-! ### Classes -/

namespace Hierarchy

variable {h : Hierarchy} {a b c : String} {cs : List Char} {n : Nat}

/-- The array class whose elements have the descriptor `cs`. -/
def arrayClass (cs : List Char) : String := String.ofList ('[' :: cs)

@[simp] lemma toList_arrayClass (cs : List Char) : (arrayClass cs).toList = '[' :: cs := by
  simp [arrayClass]

@[simp] lemma isArrayClass_arrayClass (cs : List Char) : isArrayClass (arrayClass cs) = true := by
  simp [isArrayClass]

lemma arrayClass_inj {ds : List Char} (he : arrayClass cs = arrayClass ds) : cs = ds := by
  simpa using congrArg String.toList he

lemma isArrayClass_objectClass : isArrayClass objectClass = false := by decide

lemma arrayClass_ne_objectClass (cs : List Char) : arrayClass cs ≠ objectClass := by
  intro he
  have := he ▸ isArrayClass_arrayClass cs
  simp [isArrayClass_objectClass] at this

lemma eq_arrayClass_of_toList (ha : a.toList = '[' :: cs) : a = arrayClass cs := by
  rw [arrayClass, ← ha, String.ofList_toList]

lemma eq_arrayClass_of_isArrayClass (ha : isArrayClass a = true) : ∃ cs, a = arrayClass cs := by
  simp only [isArrayClass, beq_iff_eq] at ha
  obtain ⟨cs, hcs⟩ := head?_eq_some_iff.1 ha
  exact ⟨cs, eq_arrayClass_of_toList hcs⟩

/-- An object of the first class may stand for one of the second. The root is above all, and arrays
follow their element types. -/
inductive Under (h : Hierarchy) : String → String → Prop
  | refl (a : String) : Under h a a
  | root (a : String) : Under h a objectClass
  | super {a b : String} (ha : isArrayClass a = false) (hr : a ≠ objectClass)
      (hu : Under h (h.parent a) b) : Under h a b
  | array {ca cb : List Char} {a b : String} (ra : isReferenceDescriptor ca = .ok true)
      (rb : isReferenceDescriptor cb = .ok true) (da : descriptorClass ca = .ok a)
      (db : descriptorClass cb = .ok b) (hu : Under h a b) :
      Under h (arrayClass ca) (arrayClass cb)

/-- One array class, or two with elements in relation. -/
inductive OnElements (P : String → String → Prop) : String → String → Prop
  | refl (cs : List Char) : OnElements P (arrayClass cs) (arrayClass cs)
  | elements {ca cb : List Char} {a b : String} (ra : isReferenceDescriptor ca = .ok true)
      (rb : isReferenceDescriptor cb = .ok true) (da : descriptorClass ca = .ok a)
      (db : descriptorClass cb = .ok b) (hp : P a b) : OnElements P (arrayClass ca) (arrayClass cb)

/-- As `Under`, but below an array are arrays only. -/
inductive Beneath (h : Hierarchy) : String → String → Prop
  | refl (a : String) : Beneath h a a
  | plain {a b : String} (hb : isArrayClass b = false) (hu : h.Under a b) : Beneath h a b
  | array {ca cb : List Char} {a b : String} (ra : isReferenceDescriptor ca = .ok true)
      (rb : isReferenceDescriptor cb = .ok true) (da : descriptorClass ca = .ok a)
      (db : descriptorClass cb = .ok b) (hu : Beneath h a b) :
      Beneath h (arrayClass ca) (arrayClass cb)

lemma Under.eq_root (hu : h.Under a b) (ha : a = objectClass) : b = objectClass := by
  cases hu with
  | refl => exact ha
  | root => rfl
  | super _ hr _ => exact absurd ha hr
  | array => exact absurd ha (arrayClass_ne_objectClass _)

lemma Under.trans (hab : h.Under a b) (hbc : h.Under b c) : h.Under a c := by
  induction hab generalizing c with
  | refl => exact hbc
  | root a =>
    rw [hbc.eq_root rfl]
    exact .root a
  | super ha hr _ ih => exact .super ha hr (ih hbc)
  | @array ca cb a b ra rb da db _ ih =>
    generalize hx : arrayClass cb = x at hbc
    cases hbc with
    | refl => exact hx ▸ .array ra rb da db (ih (.refl b))
    | root => exact .root _
    | super hnot _ _ => simp [← hx] at hnot
    | @array cb' cc b' c' rb' rc db' dc hu =>
      obtain rfl := arrayClass_inj hx
      obtain rfl : b = b' := Except.ok.inj (db.symm.trans db')
      exact .array ra rc da dc (ih hu)

lemma OnElements.imp {P Q : String → String → Prop} (ho : OnElements P a b)
    (hPQ : ∀ {a b}, P a b → Q a b) : OnElements Q a b := by
  cases ho with
  | refl cs => exact .refl cs
  | elements ra rb da db hp => exact .elements ra rb da db (hPQ hp)

/-- The elements of the first array, if those of the second are objects. -/
lemma OnElements.element {P : String → String → Prop} {cb : List Char}
    (ho : OnElements P a (arrayClass cb)) (hP : ∀ e, P e e)
    (rb : isReferenceDescriptor cb = .ok true) (db : descriptorClass cb = .ok b) :
    ∃ ca e, a = arrayClass ca ∧ isReferenceDescriptor ca = .ok true ∧ descriptorClass ca = .ok e ∧
    P e b := by
  generalize hx : arrayClass cb = x at ho
  cases ho with
  | refl => exact ⟨cb, b, hx.symm, rb, db, hP b⟩
  | @elements ca _ ea _ ra _ da db' hp =>
    obtain rfl := arrayClass_inj hx
    exact ⟨ca, ea, rfl, ra, da, Except.ok.inj (db'.symm.trans db) ▸ hp⟩

lemma Under.array_inv (hu : h.Under a b) (ha : isArrayClass a = true) (hb : isArrayClass b = true) :
    OnElements h.Under a b := by
  cases hu with
  | refl =>
    obtain ⟨cs, rfl⟩ := eq_arrayClass_of_isArrayClass ha
    exact .refl cs
  | root => simp [isArrayClass_objectClass] at hb
  | super hn => simp [ha] at hn
  | array ra rb da db hu => exact .elements ra rb da db hu

/-- A class above an array is the root. -/
lemma Under.eq_root_of_array (hu : h.Under a b) (ha : isArrayClass a = true)
    (hb : isArrayClass b = false) : b = objectClass := by
  cases hu with
  | refl => simp [ha] at hb
  | root => rfl
  | super hn => simp [ha] at hn
  | array => simp at hb

/-- The elements of arrays in order are in order. -/
lemma Under.element {ca cb : List Char} (hu : h.Under (arrayClass ca) (arrayClass cb))
    (da : descriptorClass ca = .ok a) (rb : isReferenceDescriptor cb = .ok true)
    (db : descriptorClass cb = .ok b) : h.Under a b := by
  obtain ⟨ca', e, he, -, da', hu⟩ := (hu.array_inv (by simp) (by simp)).element .refl rb db
  obtain rfl := arrayClass_inj he
  exact Except.ok.inj (da'.symm.trans da) ▸ hu

lemma Under.rises (hu : h.Under a b) (hb : isArrayClass b = false) (hr : b ≠ objectClass) :
    h.Rises a b := by
  induction hu with
  | refl => exact .refl _
  | root => exact absurd rfl hr
  | super _ hne _ ih => exact .of_up (up_of_ne hne ▸ ih hb hr)
  | array => simp at hb

lemma Beneath.under (hu : h.Beneath a b) : h.Under a b := by
  induction hu with
  | refl => exact .refl _
  | plain _ hu => exact hu
  | array ra rb da db _ ih => exact .array ra rb da db ih

/-- What is beneath an array is an array, of elements beneath those of the other. -/
lemma Beneath.array_inv (hu : h.Beneath a b) (hb : isArrayClass b = true) :
    OnElements h.Beneath a b := by
  cases hu with
  | refl =>
    obtain ⟨cs, rfl⟩ := eq_arrayClass_of_isArrayClass hb
    exact .refl cs
  | plain hn => simp [hb] at hn
  | array ra rb da db hu => exact .elements ra rb da db hu

lemma Beneath.trans (hab : h.Beneath a b) (hbc : h.Beneath b c) : h.Beneath a c := by
  cases hc : isArrayClass c with
  | false => exact .plain hc (hab.under.trans hbc.under)
  | true =>
    induction hbc generalizing a with
    | refl => exact hab
    | plain hb _ => simp [hc] at hb
    | @array cb cc b c rb rc db dc hu ih =>
      obtain ⟨ca, e, rfl, ra, da, heb⟩ := (hab.array_inv (by simp)).element .refl rb db
      refine .array ra rc da dc ?_
      cases hcc : isArrayClass c with
      | false => exact .plain hcc (heb.under.trans hu.under)
      | true => exact ih heb hcc

/-- A class between two, of which the first is beneath the other, is beneath it too. -/
lemma Beneath.squeeze (hac : h.Beneath a c) (hab : h.Under a b) (hbc : h.Under b c) :
    h.Beneath b c := by
  induction hbc generalizing a with
  | refl => exact .refl _
  | root => exact .plain isArrayClass_objectClass (.root _)
  | @super b c hb hr hu =>
    cases hc : isArrayClass c with
    | false => exact .plain hc (.super hb hr hu)
    | true =>
      have ha : isArrayClass a = true := by cases hac.array_inv hc <;> simp
      exact absurd (hab.eq_root_of_array ha hb) hr
  | @array cb cc b c rb rc db dc _ ih =>
    obtain ⟨ca, e, rfl, -, da, hec⟩ := (hac.array_inv (by simp)).element .refl rc dc
    exact .array rb rc db dc (ih hec (hab.element da rb db))

/-! ### Common superclasses are above both -/

lemma under_of_mem_ancestorsUpTo (hh : h.Grounded) (ha : isArrayClass a = false)
    (hb : b ∈ h.ancestorsUpTo n a) : h.Under a b := by
  obtain ⟨k, -, hk⟩ := mem_ancestorsUpTo_iff.1 hb
  clear hb
  induction k generalizing a with
  | zero => exact hk ▸ .refl a
  | succ k ih =>
    by_cases hr : a = objectClass
    · rw [hr, Function.iterate_fixed up_root] at hk
      exact hk ▸ .root a
    rw [Function.iterate_succ_apply, up_of_ne hr] at hk
    refine .super ha hr ?_
    cases hp : isArrayClass (h.parent a) with
    | false => exact ih hp hk
    | true =>
      -- Only the root comes after an array.
      cases k with
      | zero => exact hk ▸ .refl _
      | succ k =>
        have hne : h.parent a ≠ objectClass := fun he => by
          simp [he, isArrayClass_objectClass] at hp
        rw [Function.iterate_succ_apply, up_of_ne hne, hh.array ha hp,
          Function.iterate_fixed up_root] at hk
        exact hk ▸ .root _

/-- Two classes above one have no array for a common superclass: one of them is above the other. -/
lemma commonClass_not_array (hh : h.Grounded) (hb : h.Under a b) (hc : h.Under a c)
    (nb : isArrayClass b = false) (nc : isArrayClass c = false) :
    isArrayClass (h.commonClass b c) = false := by
  by_cases hd : h.commonClass b c = objectClass
  · exact hd ▸ isArrayClass_objectClass
  have hj := commonClass_joins (hh.rises nb) (hh.rises nc) hd
  by_cases rb : b = objectClass
  · subst rb
    exact absurd hj.left.eq_root hd
  by_cases rc : c = objectClass
  · subst rc
    exact absurd hj.right.eq_root hd
  rcases (hb.rises nb rb).total (hc.rises nc rc) with hbc | hcb
  · exact hj.right.antisymm (hh.rises nc) (hj.least c hbc (.refl c)) ▸ nc
  · exact hj.left.antisymm (hh.rises nb) (hj.least b (.refl b) hcb) ▸ nb

lemma commonClass_upper (hh : h.Grounded) (ha : isArrayClass a = false)
    (hb : isArrayClass b = false) :
    h.Under a (h.commonClass a b) ∧ h.Under b (h.commonClass a b) := by
  unfold commonClass
  split
  · exact ⟨.root a, .root b⟩
  · dsimp only
    cases hfind : (h.ancestors b).find? (h.ancestors a).contains with
    | none => exact ⟨.root a, .root b⟩
    | some c =>
      have hca : c ∈ h.ancestors a := by simpa using find?_some hfind
      exact ⟨under_of_mem_ancestorsUpTo hh ha hca,
        under_of_mem_ancestorsUpTo hh hb (mem_of_find?_eq_some hfind)⟩

/-- The class of the descriptor of a class. -/
lemma descriptorClass_classDescriptor (c : String) :
    isReferenceDescriptor (classDescriptor c).toList = .ok true ∧
    descriptorClass (classDescriptor c).toList = .ok c := by
  unfold classDescriptor
  split
  · next hc =>
    obtain ⟨cs, rfl⟩ := eq_arrayClass_of_isArrayClass hc
    simp only [toList_arrayClass, isReferenceDescriptor, descriptorClass]
    exact ⟨rfl, rfl⟩
  · simp [isReferenceDescriptor, descriptorClass, inner?, orBroken]

lemma not_array_of_toList (ha : ∀ tail, a.toList = '[' :: tail → False) :
    isArrayClass a = false := by
  by_contra hc
  obtain ⟨cs, rfl⟩ := eq_arrayClass_of_isArrayClass (by simpa using hc)
  exact ha cs (toList_arrayClass cs)

/-- The array class with elements of a class. -/
def arrayOf (e : String) : String := arrayClass (classDescriptor e).toList

lemma append_classDescriptor (e : String) : "[" ++ classDescriptor e = arrayOf e :=
  eq_arrayClass_of_toList (by simp)

/-- The four ways to a common superclass. -/
lemma commonUpTo_cases (hc : h.commonUpTo (n + 1) a b = .ok c) :
    (a = b ∧ c = a) ∨ c = objectClass ∨
    (∃ ca cb ea eb e, a = arrayClass ca ∧ b = arrayClass cb ∧ isReferenceDescriptor ca = .ok true ∧
    isReferenceDescriptor cb = .ok true ∧ descriptorClass ca = .ok ea ∧
    descriptorClass cb = .ok eb ∧ h.commonUpTo n ea eb = .ok e ∧ c = arrayOf e) ∨
    (a ≠ b ∧ isArrayClass a = false ∧ isArrayClass b = false ∧ c = h.commonClass a b) := by
  rw [commonUpTo] at hc
  split at hc
  · next he => exact .inl ⟨he, (pure_eq_ok_iff.1 hc).symm⟩
  next hne =>
  split at hc
  · next ca cb hca hcb =>
    obtain ⟨ra, hra, hc⟩ := bind_eq_ok_iff.1 hc
    split at hc
    · exact .inr (.inl (pure_eq_ok_iff.1 hc).symm)
    next hta =>
    obtain ⟨rb, hrb, hc⟩ := bind_eq_ok_iff.1 hc
    split at hc
    · exact .inr (.inl (pure_eq_ok_iff.1 hc).symm)
    next htb =>
    obtain ⟨ea, hea, hc⟩ := bind_eq_ok_iff.1 hc
    obtain ⟨eb, heb, hc⟩ := bind_eq_ok_iff.1 hc
    obtain ⟨e, he, hc⟩ := bind_eq_ok_iff.1 hc
    obtain rfl : ra = true := by simpa using hta
    obtain rfl : rb = true := by simpa using htb
    have harray : c = arrayOf e := (pure_eq_ok_iff.1 hc).symm.trans (append_classDescriptor e)
    exact .inr (.inr (.inl ⟨ca, cb, ea, eb, e, eq_arrayClass_of_toList hca,
      eq_arrayClass_of_toList hcb, hra, hrb, hea, heb, he, harray⟩))
  · exact .inr (.inl (pure_eq_ok_iff.1 hc).symm)
  · exact .inr (.inl (pure_eq_ok_iff.1 hc).symm)
  · next hna hnb _ =>
    exact .inr (.inr (.inr ⟨hne, not_array_of_toList hna, not_array_of_toList hnb,
      (pure_eq_ok_iff.1 hc).symm⟩))

lemma commonUpTo_upper (hh : h.Grounded) (hc : h.commonUpTo n a b = .ok c) :
    h.Under a c ∧ h.Under b c := by
  induction n generalizing a b c with
  | zero =>
    obtain rfl : objectClass = c := by simpa [commonUpTo] using hc
    exact ⟨.root a, .root b⟩
  | succ n ih =>
    obtain ⟨rfl, rfl⟩ | rfl | ⟨ca, cb, ea, eb, e, rfl, rfl, hra, hrb, hea, heb, he, rfl⟩ |
      ⟨-, hna, hnb, rfl⟩ := commonUpTo_cases hc
    · exact ⟨.refl c, .refl c⟩
    · exact ⟨.root a, .root b⟩
    · obtain ⟨hre, hde⟩ := descriptorClass_classDescriptor e
      exact ⟨.array hra hre hea hde (ih he).1, .array hrb hre heb hde (ih he).2⟩
    · exact commonClass_upper hh hna hnb

lemma common_upper (hh : h.Grounded) (hc : h.common a b = .ok c) : h.Under a c ∧ h.Under b c :=
  commonUpTo_upper hh hc

/-- A class above one that `b` came from is beneath what it has in common with `b`. -/
lemma beneath_commonUpTo (hh : h.Grounded) (hb : h.Beneath a b) (hc : h.Under a c)
    (hd : h.commonUpTo n b c = .ok d) : h.Beneath c d := by
  induction n generalizing a b c d with
  | zero =>
    obtain rfl : objectClass = d := by simpa [commonUpTo] using hd
    exact .plain isArrayClass_objectClass (.root c)
  | succ n ih =>
    obtain ⟨rfl, rfl⟩ | rfl | ⟨cb, cc, eb, ec, e, rfl, rfl, hrb, hrc, heb, hec, he, rfl⟩ |
      ⟨-, nb, nc, rfl⟩ := commonUpTo_cases hd
    · exact .refl d
    · exact .plain isArrayClass_objectClass (.root c)
    · obtain ⟨hre, hde⟩ := descriptorClass_classDescriptor e
      obtain ⟨ca, ea, rfl, -, hea, hb⟩ := (hb.array_inv (by simp)).element .refl hrb heb
      exact .array hrc hre hec hde (ih hb (hc.element hea hrc hec) he)
    · exact .plain (commonClass_not_array hh hb.under hc nb nc) (commonClass_upper hh nb nc).2

end Hierarchy

/-! ### Types -/

namespace VType

variable {h : Hierarchy} {x y z v : VType} {o : Option VType}

/-- The first type says at least what the second does. -/
inductive Below (h : Hierarchy) : VType → VType → Prop
  | refl (v : VType) : Below h v v
  | null (c : String) : Below h .null (.ref c)
  | ref {a b : String} (hu : h.Under a b) : Below h (.ref a) (.ref b)

/-- A local of the first type may stand where the second is expected; any may where nothing is. -/
def Passes (h : Hierarchy) (x y : VType) : Prop := x.Below h y ∨ y = .top

/-- Both are one type, or classes of which the first is beneath the second. -/
inductive Alike (h : Hierarchy) : VType → VType → Prop
  | refl (v : VType) : Alike h v v
  | ref {a b : String} (hu : h.Beneath a b) : Alike h (.ref a) (.ref b)

/-- As `Below`, but null also stands for what is no reference. -/
def Loose (h : Hierarchy) (x y : VType) : Prop := x.Below h y ∨ x = .null

lemma Below.trans (hxy : x.Below h y) (hyz : y.Below h z) : x.Below h z := by
  cases hxy with
  | refl => exact hyz
  | null c =>
    cases hyz with
    | refl => exact .null c
    | @ref _ b _ => exact .null b
  | ref hu =>
    cases hyz with
    | refl => exact .ref hu
    | ref hu' => exact .ref (hu.trans hu')

lemma Below.eq_top (hb : VType.top.Below h y) : y = .top := by
  cases hb
  rfl

lemma Below.top_eq (hb : x.Below h .top) : x = .top := by
  cases hb
  rfl

lemma Passes.refl (v : VType) : v.Passes h v := .inl (.refl v)

lemma Passes.eq_top (hp : VType.top.Passes h y) : y = .top := hp.elim Below.eq_top id

lemma Passes.trans (hxy : x.Passes h y) (hyz : y.Passes h z) : x.Passes h z := by
  rcases hyz with hyz | rfl
  · rcases hxy with hxy | rfl
    · exact .inl (hxy.trans hyz)
    · exact .inr hyz.eq_top
  · exact .inr rfl

lemma Alike.below (hxy : x.Alike h y) : x.Below h y := by
  cases hxy with
  | refl => exact .refl x
  | ref hu => exact .ref hu.under

lemma Alike.beneath {a b : String} (hab : (VType.ref a).Alike h (.ref b)) : h.Beneath a b := by
  cases hab with
  | refl => exact .refl a
  | ref hu => exact hu

lemma Alike.trans (hxy : x.Alike h y) (hyz : y.Alike h z) : x.Alike h z := by
  cases hxy with
  | refl => exact hyz
  | ref hu =>
    cases hyz with
    | refl => exact .ref hu
    | ref hu' => exact .ref (hu.trans hu')

lemma Loose.under {a b : String} (hl : (VType.ref a).Loose h (.ref b)) : h.Under a b := by
  rcases hl with hl | hl
  · cases hl with
    | refl => exact .refl a
    | ref hu => exact hu
  · cases hl

lemma not_ref_loose_null {a : String} : ¬ (VType.ref a).Loose h .null := by
  rintro (hp | hn)
  · cases hp
  · cases hn

/-- A type between two that are alike is like the upper one. -/
lemma Alike.squeeze (hxz : x.Alike h z) (hxy : x.Loose h y) (hyz : y.Below h z) : y.Alike h z := by
  cases hyz with
  | refl => exact .refl y
  | ref hyz =>
    cases hxz with
    | refl => exact .ref ((Hierarchy.Beneath.refl _).squeeze hxy.under hyz)
    | ref hxz => exact .ref (hxz.squeeze hxy.under hyz)
  | null c => cases hxz <;> exact absurd hxy not_ref_loose_null

/-- As `Alike.squeeze`, for locals. -/
lemma Alike.squeeze_local (hxz : x.Alike h z) (hxy : x.Passes h y) (hyz : y.Passes h z) :
    y.Alike h z := by
  rcases hxy with hxy | rfl
  · rcases hyz with hyz | rfl
    · exact hxz.squeeze (.inl hxy) hyz
    · obtain rfl := hxz.below.top_eq
      exact hxy.eq_top ▸ .refl _
  · exact hyz.eq_top ▸ .refl _

/-! ### Merged types -/

/-- Two classes merge into a class. -/
lemma exists_ref_of_merge {a b : String} (hm : (VType.ref a).merge h (.ref b) = .ok o) :
    ∃ c, o = some (.ref c) := by
  unfold merge at hm
  split at hm
  · exact ⟨a, by simpa using hm.symm⟩
  · obtain ⟨c, -, hc⟩ := bind_eq_ok_iff.1 hm
    exact ⟨c, (pure_eq_ok_iff.1 hc).symm⟩

/-- Nothing is known of what may be unknown. -/
lemma getD_of_merge_top (hm : x.merge h .top = .ok o) : o.getD .top = .top := by
  cases x <;> simp only [merge, reduceCtorEq, if_true, if_false, Except.ok.injEq] at hm <;>
    subst hm <;> rfl

/-- What is known of either of two values holds of both. -/
lemma merge_upper (hh : h.Grounded) (hm : x.merge h y = .ok (some v)) :
    x.Below h v ∧ y.Below h v := by
  unfold merge at hm
  split at hm
  · next he =>
    obtain rfl : x = v := by simpa using hm
    exact ⟨.refl x, he ▸ .refl x⟩
  · split at hm
    · next c _ =>
      obtain rfl : .ref c = v := by simpa using hm
      exact ⟨.null c, .refl _⟩
    · next c _ =>
      obtain rfl : .ref c = v := by simpa using hm
      exact ⟨.refl _, .null c⟩
    · next a b _ =>
      obtain ⟨c, hc, hv⟩ := bind_eq_ok_iff.1 hm
      obtain rfl : .ref c = v := by simpa using pure_eq_ok_iff.1 hv
      exact ⟨.ref (Hierarchy.common_upper hh hc).1, .ref (Hierarchy.common_upper hh hc).2⟩
    · simp at hm

/-- Merged locals cover both. -/
lemma merge_getD_upper (hh : h.Grounded) (hm : x.merge h y = .ok o) :
    x.Passes h (o.getD .top) ∧ y.Passes h (o.getD .top) := by
  cases o with
  | some v => exact ⟨.inl (merge_upper hh hm).1, .inl (merge_upper hh hm).2⟩
  | none => exact ⟨.inr rfl, .inr rfl⟩

/-- If what was merged so far is like `x`, a type above `x` is like what it is merged into. -/
lemma Alike.merge (hh : h.Grounded) (hxz : x.Alike h z) (hxy : x.Loose h y)
    (hm : z.merge h y = .ok (some v)) : y.Alike h v := by
  unfold VType.merge at hm
  split at hm
  · next he =>
    obtain rfl : z = v := by simpa using hm
    exact he ▸ .refl z
  split at hm
  · obtain rfl := Option.some.inj (Except.ok.inj hm)
    exact .refl _
  · -- Null becomes a class only where a class was, and no class is under null.
    cases hxz <;> exact absurd hxy not_ref_loose_null
  · obtain ⟨c, hc, hv⟩ := bind_eq_ok_iff.1 hm
    obtain rfl : .ref c = v := by simpa using pure_eq_ok_iff.1 hv
    cases hxz with
    | refl => exact .ref (Hierarchy.beneath_commonUpTo hh (.refl _) hxy.under hc)
    | ref hu => exact .ref (Hierarchy.beneath_commonUpTo hh hu hxy.under hc)
  · simp at hm

/-- As `Alike.merge`, for locals, where types that do not agree are forgotten. -/
lemma Alike.merge_getD (hh : h.Grounded) (hxz : x.Alike h z) (hxy : x.Passes h y)
    (hm : z.merge h y = .ok o) : y.Alike h (o.getD .top) := by
  rcases hxy with hxy | rfl
  · cases o with
    | some v => exact hxz.merge hh (.inl hxy) hm
    | none =>
      -- Types in order have a merge.
      cases hxy with
      | refl =>
        cases hxz with
        | refl => simp [VType.merge] at hm
        | ref _ => simpa using exists_ref_of_merge hm
      | null c =>
        cases hxz
        simp [VType.merge] at hm
      | ref _ => cases hxz <;> simpa using exists_ref_of_merge hm
  · rw [getD_of_merge_top hm]
    exact .refl _

end VType

/-! ### Frames -/

/-- The type in a slot; nothing is known of slots behind the last. -/
def slotType (locals : List VType) (n : Nat) : VType := (locals[n]?).getD .top

@[simp] lemma slotType_nil (n : Nat) : slotType [] n = .top := rfl

@[simp] lemma slotType_cons_zero (v : VType) (vs : List VType) : slotType (v :: vs) 0 = v := rfl

@[simp] lemma slotType_cons_succ (v : VType) (vs : List VType) (n : Nat) :
    slotType (v :: vs) (n + 1) = slotType vs n := by
  simp [slotType]

lemma slotType_zero (vs : List VType) : slotType vs 0 = vs.headD .top := by
  cases vs <;> rfl

lemma slotType_succ (vs : List VType) (n : Nat) : slotType vs (n + 1) = slotType vs.tail n := by
  cases vs <;> simp

namespace Frame

variable {h : Hierarchy} {f g k : Frame}

/-- Two frames with types that are related, value by value: `R` on the stack and `S` in locals. -/
structure Rel (R S : VType → VType → Prop) (f g : Frame) : Prop where
  stack : Forall₂ R f.stack g.stack
  locals : ∀ n, S (slotType f.locals n) (slotType g.locals n)

/-- A frame may stand where another is expected. -/
abbrev Passes (h : Hierarchy) : Frame → Frame → Prop := Rel (VType.Below h) (VType.Passes h)

/-- Frames of the same shape. -/
abbrev Alike (h : Hierarchy) : Frame → Frame → Prop := Rel (VType.Alike h) (VType.Alike h)

/-- As `Passes`, up to null on the stack. -/
abbrev Loose (h : Hierarchy) : Frame → Frame → Prop := Rel (VType.Loose h) (VType.Passes h)

lemma Passes.refl (f : Frame) : f.Passes h f :=
  ⟨forall₂_same.2 fun v _ => .refl v, fun _ => .refl _⟩

lemma Alike.refl (f : Frame) : f.Alike h f :=
  ⟨forall₂_same.2 fun v _ => .refl v, fun _ => .refl _⟩

end Frame

lemma exists_of_forall₂_right {α β : Type} {P : α → β → Prop} {as : List α} {bs : List β} {b : β}
    (hp : Forall₂ P as bs) (hb : b ∈ bs) : ∃ a ∈ as, P a b := by
  induction hp with
  | nil => simp at hb
  | cons hab _ ih =>
    rcases mem_cons.1 hb with rfl | hb
    · exact ⟨_, mem_cons_self, hab⟩
    · obtain ⟨a, ha, hP⟩ := ih hb
      exact ⟨a, mem_cons_of_mem _ ha, hP⟩

/-- Relations of the elements of three lists compose. -/
lemma forall₂_comp {α β γ : Type} {P : α → β → Prop} {Q : β → γ → Prop} {R : α → γ → Prop}
    (hc : ∀ a b c, P a b → Q b c → R a c) {as : List α} {bs : List β} {cs : List γ}
    (hp : Forall₂ P as bs) (hq : Forall₂ Q bs cs) : Forall₂ R as cs := by
  obtain ⟨hab, hp⟩ := forall₂_iff_get.1 hp
  obtain ⟨hbc, hq⟩ := forall₂_iff_get.1 hq
  exact forall₂_iff_get.2 ⟨hab.trans hbc, fun i ha hc' =>
    hc _ _ _ (hp i ha (hab ▸ ha)) (hq i _ hc')⟩

/-- As `forall₂_comp`, where the third relation takes all three elements. -/
lemma forall₂_comp₃ {α β γ : Type} {P : α → β → Prop} {Q : α → γ → Prop} {R : β → γ → Prop}
    {S : β → γ → Prop} (hc : ∀ a b c, P a b → Q a c → R b c → S b c) {as : List α} {bs : List β}
    {cs : List γ} (hp : Forall₂ P as bs) (hq : Forall₂ Q as cs)
    (hr : Forall₂ R bs cs) : Forall₂ S bs cs := by
  obtain ⟨hab, hp⟩ := forall₂_iff_get.1 hp
  obtain ⟨hac, hq⟩ := forall₂_iff_get.1 hq
  obtain ⟨hbc, hr⟩ := forall₂_iff_get.1 hr
  exact forall₂_iff_get.2 ⟨hbc, fun i hb hc' =>
    hc _ _ _ (hp i (hab ▸ hb) hb) (hq i _ hc') (hr i hb hc')⟩

variable {h : Hierarchy} {source height : Nat} {xs ys zs : List VType}

lemma mergeStack_eq_ok_iff {x y : VType} :
    mergeStack h source height (x :: xs) (y :: ys) = .ok zs ↔
    ∃ v vs, zs = v :: vs ∧ x.merge h y = .ok (some v) ∧ mergeStack h source (height - 1) xs ys =
    .ok vs := by
  rw [mergeStack, bind_eq_ok_iff]
  constructor
  · rintro ⟨vs, hvs, hm⟩
    obtain ⟨o, ho, hm⟩ := bind_eq_ok_iff.1 hm
    rw [Except.mapError_eq_ok_iff] at ho
    cases o with
    | none => simp at hm
    | some v => exact ⟨v, vs, (pure_eq_ok_iff.1 hm).symm, ho, hvs⟩
  · rintro ⟨v, vs, rfl, ho, hvs⟩
    exact ⟨vs, hvs, bind_eq_ok_iff.2 ⟨some v, Except.mapError_eq_ok_iff.2 ho, rfl⟩⟩

lemma mergeLocals_eq_ok_iff {x : VType} :
    mergeLocals h (x :: xs) ys = .ok zs ↔ ∃ o vs, zs = o.getD .top :: vs ∧
    x.merge h (ys.headD .top) = .ok o ∧ mergeLocals h xs ys.tail = .ok vs := by
  rw [mergeLocals, bind_eq_ok_iff]
  constructor
  · rintro ⟨o, ho, hm⟩
    obtain ⟨vs, hvs, hm⟩ := bind_eq_ok_iff.1 hm
    exact ⟨o, vs, (pure_eq_ok_iff.1 hm).symm, ho, hvs⟩
  · rintro ⟨o, vs, rfl, ho, hvs⟩
    exact ⟨o, ho, bind_eq_ok_iff.2 ⟨vs, hvs, rfl⟩⟩

/-- A merged stack covers both. -/
lemma mergeStack_upper (hh : h.Grounded)
    (hlen : xs.length = ys.length) (hm : mergeStack h source height xs ys = .ok zs) :
    Forall₂ (VType.Below h) xs zs ∧ Forall₂ (VType.Below h) ys zs := by
  induction xs generalizing ys zs height with
  | nil =>
    obtain rfl : ys = [] := length_eq_zero_iff.1 hlen.symm
    obtain rfl : [] = zs := pure_eq_ok_iff.1 hm
    exact ⟨.nil, .nil⟩
  | cons x xs ih =>
    obtain ⟨y, ys, rfl⟩ := exists_cons_of_length_eq_add_one hlen.symm
    obtain ⟨v, vs, rfl, hv, hvs⟩ := mergeStack_eq_ok_iff.1 hm
    obtain ⟨hx, hy⟩ := VType.merge_upper hh hv
    obtain ⟨hxs, hys⟩ := ih (by simpa using hlen) hvs
    exact ⟨.cons hx hxs, .cons hy hys⟩

/-- If what was merged so far is like the values `ws`, values above those are like what they are
merged into. -/
lemma alike_mergeStack (hh : h.Grounded)
    {ws : List VType} (hp : Forall₂ (VType.Alike h) ws xs) (hq : Forall₂ (VType.Loose h) ws ys)
    (hm : mergeStack h source height xs ys = .ok zs) : Forall₂ (VType.Alike h) ys zs := by
  induction hp generalizing ys zs height with
  | nil =>
    cases hq
    obtain rfl : [] = zs := pure_eq_ok_iff.1 hm
    exact .nil
  | cons hx _ ih =>
    cases hq with
    | cons hy hq =>
      obtain ⟨v, vs, rfl, hv, hvs⟩ := mergeStack_eq_ok_iff.1 hm
      exact .cons (hx.merge hh hy hv) (ih hq hvs)

/-- A merged local is what is known of both, or unknown. -/
lemma slotType_mergeLocals (hm : mergeLocals h xs ys = .ok zs) (n : Nat) :
    slotType zs n = .top ∧ slotType xs n = .top ∨
    ∃ o, (slotType xs n).merge h (slotType ys n) = .ok o ∧ slotType zs n = o.getD .top := by
  induction xs generalizing ys zs n with
  | nil =>
    obtain rfl : [] = zs := pure_eq_ok_iff.1 hm
    exact .inl ⟨rfl, rfl⟩
  | cons x xs ih =>
    obtain ⟨o, vs, rfl, ho, hvs⟩ := mergeLocals_eq_ok_iff.1 hm
    cases n with
    | zero => exact .inr ⟨o, by rwa [slotType_zero ys], rfl⟩
    | succ n =>
      rw [slotType_cons_succ, slotType_cons_succ, slotType_succ ys]
      exact ih hvs n

namespace Frame

variable {h : Hierarchy} {f g k r : Frame} {source : Nat}

lemma Passes.trans (hfg : f.Passes h g) (hgk : g.Passes h k) : f.Passes h k :=
  ⟨forall₂_comp (fun _ _ _ hxy hyz => hxy.trans hyz) hfg.stack hgk.stack,
    fun n => (hfg.locals n).trans (hgk.locals n)⟩

/-- A frame between two that are alike is like the upper one. -/
lemma Alike.squeeze (hfk : f.Alike h k) (hfg : f.Loose h g) (hgk : g.Passes h k) : g.Alike h k :=
  ⟨forall₂_comp₃ (fun _ _ _ hxy hxz hyz => hxz.squeeze hxy hyz) hfg.stack hfk.stack hgk.stack,
    fun n => (hfk.locals n).squeeze_local (hfg.locals n) (hgk.locals n)⟩

lemma merge_eq_ok_iff : f.merge h g source = .ok r ↔ f.stack.length = g.stack.length ∧
      mergeStack h source f.stack.length f.stack g.stack = .ok r.stack ∧
        mergeLocals h f.locals g.locals = .ok r.locals := by
  unfold merge
  split
  · next hn => simp [hn, bind_eq_ok_iff]
  · next hn =>
    simp only [bind_eq_ok_iff, pure_eq_ok_iff, Except.mapError_eq_ok_iff,
      Decidable.not_not.1 hn, true_and]
    constructor
    · rintro ⟨stack, hs, locals, hl, rfl⟩
      exact ⟨hs, hl⟩
    · rintro ⟨hs, hl⟩
      exact ⟨_, hs, _, hl, rfl⟩

/-- A merged frame covers the two it was made of. -/
lemma merge_upper (hh : h.Grounded) (hm : f.merge h g source = .ok r) :
    f.Passes h r ∧ g.Passes h r := by
  obtain ⟨hlen, hs, hl⟩ := merge_eq_ok_iff.1 hm
  obtain ⟨hfs, hgs⟩ := mergeStack_upper hh hlen hs
  have hlocals (n : Nat) : (slotType f.locals n).Passes h (slotType r.locals n) ∧
      (slotType g.locals n).Passes h (slotType r.locals n) := by
    rcases slotType_mergeLocals hl n with ⟨hr, -⟩ | ⟨o, ho, hr⟩
    · exact ⟨.inr hr, .inr hr⟩
    · rw [hr]
      exact VType.merge_getD_upper hh ho
  exact ⟨⟨hfs, fun n => (hlocals n).1⟩, ⟨hgs, fun n => (hlocals n).2⟩⟩

/-- If what was merged so far is like `f`, a frame above `f` is like what it is merged into. -/
lemma Alike.merge (hh : h.Grounded) (hfk : f.Alike h k) (hfg : f.Loose h g)
    (hm : k.merge h g source = .ok r) : g.Alike h r := by
  obtain ⟨-, hs, hl⟩ := merge_eq_ok_iff.1 hm
  refine ⟨alike_mergeStack hh hfk.stack hfg.stack hs, fun n => ?_⟩
  rcases slotType_mergeLocals hl n with ⟨hr, hk⟩ | ⟨o, ho, hr⟩
  · -- A local that was unknown so far was unknown in `f`.
    have hf : slotType f.locals n = .top := (hk ▸ hfk.locals n).below.top_eq
    have hg := hfg.locals n
    rw [hf] at hg
    rw [hr, hg.eq_top]
    exact .refl _
  · rw [hr]
    exact (hfk.locals n).merge_getD hh (hfg.locals n) ho

end Frame

end Classwright
