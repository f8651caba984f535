import Classwright.Proofs.ClassFile.Pool

/-!
Constants by their parts.

A constant may refer to others, down to texts. What is added to a pool with all its parts resolves
to what was asked for, in that pool and in any that extends it, as long as none of the parts was
lost to an overflow.
-/

namespace Classwright.Pool

open Classwright.Except (bind_eq_ok_iff)

variable {p q : Pool} {e : Entry} {i : UInt16} {s name desc owner : String}

/-! ### Resolving -/

/-- A text is at the index of a text only. -/
lemma utf8At_eq_ok_iff : p.utf8At i = .ok s ↔ p.entry i = .ok (.utf8 s) := by
  unfold utf8At
  rw [bind_eq_ok_iff]
  constructor
  · rintro ⟨e, he, h⟩
    cases e with
    | utf8 t =>
      obtain rfl := Except.ok.inj h
      exact he
    | _ => cases h
  · intro he
    exact ⟨_, he, rfl⟩

/-- A class refers to the text of its name. -/
lemma classAt_eq_ok_iff :
    p.classAt i = .ok s ↔ ∃ n, p.entry i = .ok (.cls n) ∧ p.utf8At n = .ok s := by
  unfold classAt
  rw [bind_eq_ok_iff]
  constructor
  · rintro ⟨e, he, h⟩
    cases e with
    | cls n => exact ⟨n, he, h⟩
    | _ => cases h
  · rintro ⟨n, he, hn⟩
    exact ⟨_, he, hn⟩

/-- A name with a descriptor refers to two texts. -/
lemma nameAndTypeAt_eq_ok_iff : p.nameAndTypeAt i = .ok (name, desc) ↔
    ∃ n d, p.entry i = .ok (.nameAndType n d) ∧ p.utf8At n = .ok name ∧ p.utf8At d = .ok desc := by
  unfold nameAndTypeAt
  rw [bind_eq_ok_iff]
  constructor
  · rintro ⟨e, he, h⟩
    cases e with
    | nameAndType n d =>
      obtain ⟨_, hn, h⟩ := bind_eq_ok_iff.1 h
      obtain ⟨_, hd, h⟩ := bind_eq_ok_iff.1 h
      obtain ⟨rfl, rfl⟩ := Prod.mk.inj (Except.ok.inj h)
      exact ⟨n, d, he, hn, hd⟩
    | _ => cases h
  · rintro ⟨n, d, he, hn, hd⟩
    refine ⟨_, he, ?_⟩
    simp only [hn, hd]
    rfl

/-- A method refers to its class, and to its name with the descriptor. -/
lemma memberAt_of_method {c n : UInt16} {isInterface : Bool}
    (he : p.entry i = .ok (if isInterface then .interfaceMethod c n else .method c n))
    (hc : p.classAt c = .ok owner) (hn : p.nameAndTypeAt n = .ok (name, desc)) :
    p.memberAt i = .ok ⟨owner, name, desc, isInterface⟩ := by
  unfold memberAt
  refine bind_eq_ok_iff.2 ⟨_, he, ?_⟩
  cases isInterface <;>
  exact bind_eq_ok_iff.2 ⟨owner, hc, bind_eq_ok_iff.2 ⟨(name, desc), hn, rfl⟩⟩

lemma memberAt_of_field {c n : UInt16} (he : p.entry i = .ok (.field c n))
    (hc : p.classAt c = .ok owner) (hn : p.nameAndTypeAt n = .ok (name, desc)) :
    p.memberAt i = .ok ⟨owner, name, desc, false⟩ := by
  unfold memberAt
  refine bind_eq_ok_iff.2 ⟨_, he, bind_eq_ok_iff.2 ⟨owner, hc, ?_⟩⟩
  exact bind_eq_ok_iff.2 ⟨(name, desc), hn, rfl⟩

/-! ### Later pools -/

namespace Extends

lemma utf8At (h : p.Extends q) (hs : p.utf8At i = .ok s) : q.utf8At i = .ok s :=
  utf8At_eq_ok_iff.2 (h.entry (utf8At_eq_ok_iff.1 hs))

lemma classAt (h : p.Extends q) (hs : p.classAt i = .ok s) : q.classAt i = .ok s := by
  obtain ⟨n, he, hn⟩ := classAt_eq_ok_iff.1 hs
  exact classAt_eq_ok_iff.2 ⟨n, h.entry he, h.utf8At hn⟩

lemma nameAndTypeAt (h : p.Extends q) (hs : p.nameAndTypeAt i = .ok (name, desc)) :
    q.nameAndTypeAt i = .ok (name, desc) := by
  obtain ⟨n, d, he, hn, hd⟩ := nameAndTypeAt_eq_ok_iff.1 hs
  exact nameAndTypeAt_eq_ok_iff.2 ⟨n, d, h.entry he, h.utf8At hn, h.utf8At hd⟩

/-- Whatever resolves does so in any pool that extends the first. -/
lemma memberAt {m : MemberRef} (h : p.Extends q) (hm : p.memberAt i = .ok m) :
    q.memberAt i = .ok m := by
  unfold Pool.memberAt at hm ⊢
  obtain ⟨e, he, hm⟩ := bind_eq_ok_iff.1 hm
  refine bind_eq_ok_iff.2 ⟨e, h.entry he, ?_⟩
  cases e with
  | field c n | method c n | interfaceMethod c n =>
    obtain ⟨owner, hc, hm⟩ := bind_eq_ok_iff.1 hm
    obtain ⟨⟨name, desc⟩, hn, hm⟩ := bind_eq_ok_iff.1 hm
    refine bind_eq_ok_iff.2 ⟨owner, h.classAt hc, ?_⟩
    exact bind_eq_ok_iff.2 ⟨(name, desc), h.nameAndTypeAt hn, hm⟩
  | _ => cases hm

end Extends

/-! ### Adding -/

/-- What holds of a pool and an index stays so. -/
def Lasts (Q : Pool → UInt16 → Prop) : Prop := ∀ ⦃p q i⦄, p.Extends q → Q p i → Q q i

/-- A computation adds to pools, and without an overflow gives an index of which something holds. -/
structure Puts (m : PoolM UInt16) (Q : Pool → UInt16 → Prop) : Prop where
  adds : Adds m
  holds : ∀ ⦃p : Pool⦄, p.Coherent → (m p).2.overflowed = false → Q (m p).2 (m p).1

/-- An entry is lost by an overflow only. -/
lemma puts_add (e : Entry) : Puts (add e) fun q i => q.entry i = .ok e := by
  refine ⟨adds_add e, fun p hp ho => ?_⟩
  exact (add_spec hp e).2.2.resolve_right fun ⟨_, h⟩ => by simp [h] at ho

namespace Puts

variable {m : PoolM UInt16} {f : UInt16 → PoolM UInt16} {Q R : Pool → UInt16 → Prop}

/-- One constant and then another, which may refer to it. -/
lemma bind {S : UInt16 → Pool → UInt16 → Prop} (hm : Puts m Q) (hQ : Lasts Q)
    (h : ∀ i, Puts (f i) (S i)) : Puts (m >>= f) fun q j => ∃ i, Q q i ∧ S i q j := by
  refine ⟨hm.adds.bind fun i => (h i).adds, fun p hp ho => ?_⟩
  obtain ⟨hc, -⟩ := hm.adds hp
  obtain ⟨-, he⟩ := (h (m p).1).adds hc
  exact ⟨(m p).1, hQ he (hm.holds hp (he.overflowed ho)), (h _).holds hc ho⟩

lemma imp (h : Puts m Q) (hR : ∀ {q i}, Q q i → R q i) : Puts m R :=
  ⟨h.adds, fun _ hp ho => hR (h.holds hp ho)⟩

/-- A later pool has it, too. -/
lemma later (h : Puts m Q) (hQ : Lasts Q) (hp : p.Coherent) (he : (m p).2.Extends q)
    (ho : q.overflowed = false) : Q q (m p).1 :=
  hQ he (h.holds hp (he.overflowed ho))

end Puts

/-- What an index resolves to lasts. -/
lemma lasts_utf8At : Lasts fun q i => q.utf8At i = .ok s := fun _ _ _ he h => he.utf8At h

lemma lasts_classAt : Lasts fun q i => q.classAt i = .ok s := fun _ _ _ he h => he.classAt h

lemma lasts_nameAndTypeAt : Lasts fun q i => q.nameAndTypeAt i = .ok (name, desc) :=
  fun _ _ _ he h => he.nameAndTypeAt h

lemma lasts_memberAt {m : MemberRef} : Lasts fun q i => q.memberAt i = .ok m :=
  fun _ _ _ he h => he.memberAt h

lemma puts_utf8 (s : String) : Puts (utf8 s) fun q i => q.utf8At i = .ok s :=
  (puts_add _).imp utf8At_eq_ok_iff.2

/-- The name of a class is added before it, and lasts. -/
lemma puts_cls (name : String) : Puts (cls name) fun q i => q.classAt i = .ok name := by
  refine ((puts_utf8 name).bind lasts_utf8At fun _ => puts_add _).imp ?_
  rintro q i ⟨n, hn, he⟩
  exact classAt_eq_ok_iff.2 ⟨n, he, hn⟩

lemma puts_str (s : String) :
    Puts (str s) fun q i => ∃ n, q.entry i = .ok (.str n) ∧ q.utf8At n = .ok s := by
  refine ((puts_utf8 s).bind lasts_utf8At fun _ => puts_add _).imp ?_
  rintro q i ⟨n, hn, he⟩
  exact ⟨n, he, hn⟩

lemma puts_nameAndType (name desc : String) :
    Puts (nameAndType name desc) fun q i => q.nameAndTypeAt i = .ok (name, desc) := by
  have hdesc (n : UInt16) := (puts_utf8 desc).bind lasts_utf8At fun d => puts_add (.nameAndType n d)
  refine ((puts_utf8 name).bind lasts_utf8At hdesc).imp ?_
  rintro q i ⟨n, hn, d, hd, he⟩
  exact nameAndTypeAt_eq_ok_iff.2 ⟨n, d, he, hn, hd⟩

/-- All parts of a method last until it is added. -/
lemma puts_method (owner name desc : String) (isInterface : Bool) :
    Puts (method owner name desc isInterface) fun q i =>
    q.memberAt i = .ok ⟨owner, name, desc, isInterface⟩ := by
  have hname (c : UInt16) := (puts_nameAndType name desc).bind lasts_nameAndTypeAt
    fun n => puts_add (if isInterface then .interfaceMethod c n else .method c n)
  refine ((puts_cls owner).bind lasts_classAt hname).imp ?_
  -- by then the pool has the class, the name and the method
  rintro q i ⟨c, hc, n, hn, he⟩
  exact memberAt_of_method he hc hn

end Classwright.Pool
