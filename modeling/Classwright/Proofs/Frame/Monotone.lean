import Classwright.Proofs.Frame.Order

/-!
Instructions and the order of frames.

`Effect.Sim` compares two runs of an effect, on a frame and on one above it: where the upper one
passes, so does the lower one, unless that is assumed, and the results are related again. There is
one rule for each primitive effect and for sequencing; `Insn.effect_sim` puts them together for
every instruction. What relations are kept is said by `Linking`, which holds of assignable frames,
of frames of one shape, and of frames that are the same and name classes of the method only.
-/

namespace Classwright

open List

/-! ### Locals -/

@[simp] lemma VType.isWide_top : VType.top.isWide = false := rfl

lemma any_isWide (locals : List VType) (n : Nat) :
    (locals[n]?).any VType.isWide = (slotType locals n).isWide := by
  unfold slotType
  cases locals[n]? <;> rfl

lemma slotType_append_top (locals : List VType) (k n : Nat) :
    slotType (locals ++ replicate k .top) n = slotType locals n := by
  unfold slotType
  rw [getElem?_append]
  split
  · rfl
  · next hn =>
    rw [getElem?_eq_none (by omega : locals.length ≤ n), getElem?_replicate]
    split <;> rfl

lemma slotType_set_top (locals : List VType) (i n : Nat) :
    slotType (locals.set i .top) n = if n = i then .top else slotType locals n := by
  unfold slotType
  rw [getElem?_set]
  split
  · next hi =>
    subst hi
    split
    · simp
    · simp
  · next hi => rw [if_neg (Ne.symm hi)]

lemma slotType_set (locals : List VType) {i : Nat} (v : VType) (n : Nat) (hi : i < locals.length) :
    slotType (locals.set i v) n = if n = i then v else slotType locals n := by
  unfold slotType
  rw [getElem?_set]
  split
  · next he => simp [← he]
  · next he => rw [if_neg (Ne.symm he)]

/-- A value that is stored takes its slots, and what it overlaps is lost. -/
lemma slotType_storeLocal (locals : List VType) (slot : Nat) (v : VType) (n : Nat) :
    slotType (storeLocal locals slot v) n = if n = slot then v
      else if n = slot + 1 ∧ (v.isWide ∨ (slotType locals slot).isWide) then .top
      else if n + 1 = slot ∧ (slotType locals n).isWide then .top else slotType locals n := by
  have hwords : 0 < v.words := by unfold VType.words; split <;> omega
  cases slot
  all_goals
    simp only [storeLocal, any_isWide, slotType_append_top]
    rw [slotType_set]
    · grind [slotType_set_top, slotType_append_top]
    · split_ifs <;> simp <;> omega

/-- The second word of a two-word local is not known. -/
def Paired (locals : List VType) : Prop :=
  ∀ n, (slotType locals n).isWide → slotType locals (n + 1) = .top

lemma Paired.storeLocal {locals : List VType} (hp : Paired locals) (slot : Nat) (v : VType) :
    Paired (storeLocal locals slot v) := by
  intro n hn
  have := hp n
  simp only [slotType_storeLocal] at hn ⊢
  split_ifs at hn ⊢ <;> simp_all

/-! ### Uninitialized values -/

namespace VType

/-- The value of an object whose constructor has not run. -/
def Unbuilt (v : VType) : Prop := v = .uninitThis ∨ ∃ offset, v = .uninit offset

variable {v : VType} {c : String}

lemma Unbuilt.eq_of_below {h : Hierarchy} {x y : VType} (hv : v.Unbuilt) (hxy : x.Below h y) :
    x = v ↔ y = v := by
  rcases hv with rfl | ⟨offset, rfl⟩ <;> cases hxy <;> simp

lemma Unbuilt.ne_top (hv : v.Unbuilt) : v ≠ .top := by
  rcases hv with rfl | ⟨offset, rfl⟩ <;> simp

lemma not_unbuilt_ref (c : String) : ¬ (VType.ref c).Unbuilt := by
  simp [Unbuilt]

lemma not_unbuilt_top : ¬ VType.top.Unbuilt := by
  simp [Unbuilt]

lemma not_unbuilt_ofKind (k : Kind) : ¬ (VType.ofKind k).Unbuilt := by
  cases k <;> simp [Unbuilt, ofKind]

/-- Values that are described are objects or numbers. -/
lemma not_unbuilt_of_ofDescriptor {desc : String} (hv : ofDescriptor desc = .ok v) :
    ¬ v.Unbuilt := by
  unfold ofDescriptor at hv
  split at hv
  · simp at hv
  · split at hv
    case h_9 =>
      obtain ⟨c, -, hc⟩ := Except.bind_eq_ok_iff.1 hv
      obtain rfl := Except.pure_eq_ok_iff.1 hc
      exact not_unbuilt_ref c
    all_goals
      obtain rfl := Except.ok.inj hv
      simp [Unbuilt]

/-- The class of a reference to an object. -/
def class? : VType → Option String
  | .ref c => some c
  | _ => none

/-- If the value is an object, its class is one of `N`. -/
def Within (N : String → Prop) (v : VType) : Prop := ∀ c, v = .ref c → N c

variable {N : String → Prop}

@[simp] lemma within_ref : (VType.ref c).Within N ↔ N c := by
  simp [Within]

@[simp] lemma within_top : VType.top.Within N := nofun

/-- What an instruction may make: built, and of one of the classes. -/
def Proper (N : String → Prop) (v : VType) : Prop := ¬ v.Unbuilt ∧ v.Within N

lemma proper_ofKind (k : Kind) : (ofKind k).Proper N :=
  ⟨not_unbuilt_ofKind k, by cases k <;> exact nofun⟩

lemma proper_ref (hc : N c) : (VType.ref c).Proper N := ⟨not_unbuilt_ref c, within_ref.2 hc⟩

end VType

/-- The class of the elements of an array of references. -/
def Hierarchy.elementClass? (a : String) : Option String :=
  if isArrayClass a then (VType.ofDescriptor (String.ofList a.toList.tail)).toOption.bind
    VType.class?
  else none

/-- What `N` must hold of if frames of a method are to be within it. -/
structure MethodCode.NamedBy (m : MethodCode) (N : String → Prop) : Prop where
  owner : N m.owner
  string : N "java/lang/String"
  class_ : N "java/lang/Class"
  throwable : N throwableClass
  primitive : ∀ n desc, Insn.primitiveArray? n = some desc → N desc
  pool : ∀ i name, m.pool.classAt i = .ok name → N name ∧ N (Hierarchy.arrayOf name)
  member : ∀ i r desc v, m.pool.memberAt i = .ok r →
    (desc = r.desc ∨ ∃ sig, Descriptor.parse r.desc = .ok sig ∧ desc = sig.2) →
    VType.ofDescriptor desc = .ok v → v.Within N
  params : ∀ sig, Descriptor.parse m.desc = .ok sig → ∀ p ∈ sig.1, ∀ v,
    VType.ofDescriptor p = .ok v → v.Within N
  element : ∀ a e, N a → Hierarchy.elementClass? a = some e → N e

lemma MethodCode.namedBy_true (m : MethodCode) : m.NamedBy fun _ => True := by
  constructor <;> simp [VType.Within]

/-! ### Relations that instructions keep -/

/-- Relations of types that fit together: `R` on the stack and `S` in locals before an instruction,
and `T` on the stack after it. Values are of classes of `N`, and the lower locals have `Q`. If `D`,
then instructions are known to pass below. -/
structure Linking (h : Hierarchy) (N : String → Prop) (D : Prop) (Q : List VType → Prop)
    (R S T : VType → VType → Prop) : Prop where
  refl : ∀ {v}, v.Proper N → R v v
  below : ∀ {x y}, R x y → x.Below h y
  within : ∀ {x y}, R x y → y.Within N
  store : ∀ {x y}, R x y → S x y
  load : ∀ {x y}, S x y → y ≠ .top → R x y
  /-- A local that is not known above may change below. -/
  forget : ∀ {x y}, S x .top → x ≠ .top → S y .top
  keep : ∀ {x y}, R x y → T x y
  /-- Below an array is one of elements below. -/
  element : ∀ {a b}, R (.ref a) (.ref b) → (D → isArrayClass a = true) → isArrayClass b = true →
    Hierarchy.OnElements (fun x y => T (.ref x) (.ref y)) a b
  null : ∀ {c v}, R .null (.ref c) → T .null v
  stored : ∀ {l} slot v, Q l → Q (storeLocal l slot v)
  replaced : ∀ {f : Frame} {old} name, old.Unbuilt → Q f.locals →
    Q (f.replace old (.ref name)).locals
  /-- Two-word values that may be forgotten above are paired below. -/
  pairs : ∀ {l x}, Q l → S x .top → x.isWide → Paired l

lemma slotType_replace {old new : VType} (hold : old.Unbuilt) (f : Frame) (n : Nat) :
    slotType (f.replace old new).locals n =
      if slotType f.locals n = old then new else slotType f.locals n := by
  simp only [slotType, Frame.replace, getElem?_map]
  obtain hn | ⟨v, hn⟩ := Option.eq_none_or_eq_some f.locals[n]?
  · simp [hn, hold.ne_top.symm]
  · simp [hn]

lemma Paired.replace {f : Frame} {old : VType} (name : String) (hold : old.Unbuilt)
    (hp : Paired f.locals) : Paired (f.replace old (.ref name)).locals := by
  intro n hn
  rw [slotType_replace hold] at hn ⊢
  split_ifs at hn with hx
  · cases hn
  · rw [hp n hn, if_neg hold.ne_top.symm]

variable {h : Hierarchy}

/-- Assignable frames stay assignable, but for elements of null. -/
lemma linking_passes : Linking h (fun _ => True) True Paired (VType.Below h) (VType.Passes h)
    (VType.Loose h) where
  refl _ := .refl _
  below := id
  within _ _ _ := trivial
  store := .inl
  load hp hy := hp.resolve_right hy
  forget _ _ := .inr rfl
  keep := .inl
  element hr ha hb := by
    have hu := (show VType.Loose h _ _ from .inl hr).under
    exact (hu.array_inv (ha trivial) hb).imp fun hu => .inl (.ref hu)
  null _ := .inr rfl
  stored slot v hp := hp.storeLocal slot v
  replaced := .replace
  pairs hp _ _ := hp

/-- Both are alike, and what is not built was made at one of the offsets. -/
def VType.MadeAt (h : Hierarchy) (offsets : Nat → Prop) (x y : VType) : Prop :=
  x.Alike h y ∧ ∀ offset, x = .uninit offset → offsets offset

/-- Frames of one shape stay of one shape. -/
lemma linking_madeAt (offsets : Nat → Prop) : Linking h (fun _ => True) False Paired
    (VType.MadeAt h offsets) (VType.MadeAt h offsets) (VType.MadeAt h offsets) where
  refl hv := ⟨.refl _, fun offset ho => absurd (.inr ⟨offset, ho⟩) hv.1⟩
  below hxy := hxy.1.below
  within _ _ _ := trivial
  store := id
  load hxy _ := hxy
  forget hx hne := absurd hx.1.below.top_eq hne
  keep := id
  element hr _ hb := (hr.1.beneath.array_inv hb).imp fun hu => ⟨.ref hu, nofun⟩
  null hn := by cases hn.1
  stored slot v hp := hp.storeLocal slot v
  replaced := .replace
  pairs hp _ _ := hp

/-- Both are the same, and objects are of classes of `N`. -/
def VType.Named (N : String → Prop) (x y : VType) : Prop := x = y ∧ y.Within N

/-- Frames with classes of `N` stay so. -/
lemma linking_named (N : String → Prop) :
    Linking {} N False (fun _ => True) (VType.Named N) (VType.Named N) (VType.Named N) where
  refl hv := ⟨rfl, hv.2⟩
  below hxy := hxy.1 ▸ .refl _
  within hxy := hxy.2
  store := id
  load hxy _ := hxy
  forget hx hne := absurd hx.1 hne
  keep := id
  element hr _ hb := by
    obtain rfl := VType.ref.inj hr.1
    obtain ⟨cs, rfl⟩ := Hierarchy.eq_arrayClass_of_isArrayClass hb
    exact .refl cs
  null hn := nomatch hn.1
  stored _ _ := id
  replaced _ _ := id
  pairs _ hx hw := by cases hx.1; cases hw

/-- Two frames in relation, and the locals of the lower one with `Q`. -/
structure Linked (Q : List VType → Prop) (R S : VType → VType → Prop) (f g : Frame) :
    Prop extends f.Rel R S g where
  paired : Q f.locals

namespace VType

variable {h : Hierarchy} {x y : VType}

lemma Below.isWide_eq (hb : x.Below h y) : x.isWide = y.isWide := by
  cases hb <;> rfl

lemma Below.fits_eq (hb : x.Below h y) (want : VType) : x.fits want = y.fits want := by
  cases hb with
  | refl => rfl
  | null c => cases want <;> rfl
  | ref hu => cases want <;> simp [fits, isReference]

end VType

namespace Linking

variable {h : Hierarchy} {N : String → Prop} {D : Prop} {Q : List VType → Prop}
  {R S T : VType → VType → Prop} {x y : VType}

/-- The locals after a store. -/
lemma storeLocal (hL : Linking h N D Q R S T) {f g : List VType} (hQ : Q f)
    (hs : ∀ n, S (slotType f n) (slotType g n)) (slot : Nat) (hv : R x y) (n : Nat) :
    S (slotType (storeLocal f slot x) n) (slotType (storeLocal g slot y) n) := by
  have htop : S .top .top := hL.store (hL.refl ⟨VType.not_unbuilt_top, VType.within_top⟩)
  have hwide (m : Nat) (hg : slotType g m ≠ .top) :
      (slotType f m).isWide = (slotType g m).isWide :=
    (hL.below (hL.load (hs m) hg)).isWide_eq
  have hxy := (hL.below hv).isWide_eq
  rw [slotType_storeLocal, slotType_storeLocal]
  by_cases h0 : n = slot
  · simpa [h0] using hL.store hv
  by_cases h1 : n = slot + 1
  · subst h1
    have hn : ¬ slot + 1 + 1 = slot := by omega
    simp only [h0, if_false, true_and, hn, false_and]
    by_cases hg : slotType g slot = .top
    · -- What is lost below only was the second word of a two-word value.
      by_cases hy : y.isWide
      · simpa [hxy, hy] using htop
      by_cases hf : (slotType f slot).isWide
      · have hp := hL.pairs hQ (hg ▸ hs slot) hf
        simpa [hxy, hy, hg, hf] using hp slot hf ▸ hs (slot + 1)
      · simpa [hxy, hy, hg, hf] using hs (slot + 1)
    · rw [hwide slot hg, hxy]
      split_ifs
      · exact htop
      · exact hs _
  · simp only [h0, if_false, h1, false_and]
    by_cases hg : slotType g n = .top
    · have := hs n
      split_ifs <;> simp_all
    · rw [hwide n hg]
      split_ifs
      · exact htop
      · exact hs _

end Linking

/-! ### Simulation -/

namespace Effect

variable {α β : Type} {D : Prop} {P P' P'' : Frame → Frame → Prop} {Q Q' : α → α → Prop}
  {Q₁ : β → β → Prop} {e : Fault}

/-- Where an effect passes on the upper of two frames, the other passes on the lower one, with
related values and frames. If `D`, that it passes is known. -/
def Sim (D : Prop) (P P' : Frame → Frame → Prop) (Q : α → α → Prop) (x y : Effect α) : Prop :=
  ∀ ⦃f g : Frame⦄ ⦃b : α⦄ ⦃g' : Frame⦄, P f g → (D → ∃ r, x f = .ok r) → y g = .ok (b, g') →
    ∃ a f', x f = .ok (a, f') ∧ Q a b ∧ P' f' g'

lemma Sim.bind {x y : Effect α} {k l : α → Effect β} (hx : Sim D P P' Q x y)
    (hk : ∀ a b, Q a b → Sim D P' P'' Q₁ (k a) (l b)) : Sim D P P'' Q₁ (x >>= k) (y >>= l) := by
  intro f g b g'' hP hD hy
  obtain ⟨b₁, g', hy, hl⟩ := StateT.bind_eq_ok_iff.1 hy
  have hruns (hd : D) : ∃ r, x f = .ok r ∧ ∃ r', k r.1 r.2 = .ok r' := by
    obtain ⟨⟨c, f''⟩, hr⟩ := hD hd
    obtain ⟨a, f', hx, hk⟩ := StateT.bind_eq_ok_iff.1 hr
    exact ⟨(a, f'), hx, _, hk⟩
  obtain ⟨a₁, f', hx, hQ, hP'⟩ := hx hP (fun hd => (hruns hd).imp fun _ hr => hr.1) hy
  have hrest (hd : D) : ∃ r, k a₁ f' = .ok r := by
    obtain ⟨r, hr, hk⟩ := hruns hd
    rwa [Except.ok.inj (hr.symm.trans hx)] at hk
  obtain ⟨a, f'', hk, hQ₁, hP''⟩ := hk a₁ b₁ hQ hP' hrest hl
  exact ⟨a, f'', StateT.bind_eq_ok_iff.2 ⟨a₁, f', hx, hk⟩, hQ₁, hP''⟩

lemma Sim.pure {a b : α} (hQ : Q a b) : Sim D P P Q (pure a) (pure b) := by
  intro f g b' g' hP _ hy
  obtain ⟨rfl, rfl⟩ := StateT.pure_eq_ok_iff.1 hy
  exact ⟨a, f, rfl, hQ, hP⟩

/-- There is nothing to show where the upper run fails. -/
lemma Sim.fail {x : Effect α} : Sim D P P' Q x (Effect.fail e) := by
  intro f g b g' _ _ hy
  exact absurd hy StateT.throw_ne_ok

lemma Sim.fail_bind {x : Effect β} {l : α → Effect β} : Sim D P P' Q₁ x (Effect.fail e >>= l) := by
  intro f g b g' _ _ hy
  obtain ⟨b, g, hy, -⟩ := StateT.bind_eq_ok_iff.1 hy
  exact absurd hy StateT.throw_ne_ok

lemma Sim.mono {x y : Effect α} (hx : Sim D P P' Q x y) (hQ : ∀ a b, Q a b → Q' a b)
    (hP : ∀ f g, P' f g → P'' f g) : Sim D P P'' Q' x y := by
  intro f g b g' hfg hD hy
  obtain ⟨a, f', hx, hab, hfg'⟩ := hx hfg hD hy
  exact ⟨a, f', hx, hQ a b hab, hP f' g' hfg'⟩

lemma Sim.resolved (r : Except PoolError α) :
    Sim D P P (fun a b => a = b ∧ r = .ok b) (resolved r) (resolved r) := by
  cases r with
  | ok a => exact .pure ⟨rfl, rfl⟩
  | error e => exact .fail

lemma Sim.sound (r : Except Misuse α) :
    Sim D P P (fun a b => a = b ∧ r = .ok b) (sound r) (sound r) := by
  cases r with
  | ok a => exact .pure ⟨rfl, rfl⟩
  | error m =>
    intro f g b g' _ _ hy
    exact absurd hy StateT.throw_ne_ok

lemma Sim.modify {m m' : Frame → Frame} (hm : ∀ f g, P f g → P' (m f) (m' g)) :
    Sim D P P' Eq (modify m) (modify m') := by
  intro f g b g' hP _ hy
  obtain rfl := StateT.modify_eq_ok_iff.1 hy
  exact ⟨(), m f, StateT.modify_eq_ok_iff.2 rfl, rfl, hm f g hP⟩

/-- A loop whose rounds agree. -/
lemma Sim.forIn {xs : List α} {init : β} {body : α → β → Effect (ForInStep β)}
    (hb : ∀ a b, Sim D P P Eq (body a b) (body a b)) :
    Sim D P P Eq (forIn xs init body) (forIn xs init body) := by
  induction xs generalizing init with
  | nil => exact .pure rfl
  | cons a xs ih =>
    rw [forIn_cons]
    refine (hb a init).bind fun r r' hr => ?_
    subst hr
    cases r with
    | done b => exact .pure rfl
    | yield b => exact ih

/-! ### Stack and locals -/

section

variable {h : Hierarchy} {N : String → Prop} {L : List VType → Prop} {R S T : VType → VType → Prop}
  {a b : VType}

/-- As `Sim`, for frames that stay in one relation. -/
abbrev Kept (D : Prop) (L : List VType → Prop) (R S : VType → VType → Prop) :
    (α → α → Prop) → Effect α → Effect α → Prop :=
  Sim D (Linked L R S) (Linked L R S)

lemma push_sim (hT : ∀ x y, R x y → T x y) (hv : T a b) :
    Sim D (Linked L R S) (Linked L T S) Eq (push a) (push b) :=
  .modify fun _ _ hfg => ⟨⟨.cons hv (hfg.stack.imp hT), hfg.locals⟩, hfg.paired⟩

lemma pushAll_sim {vs ws : List VType} (hv : Forall₂ R vs ws) :
    Kept D L R S Eq (pushAll vs) (pushAll ws) :=
  .modify fun _ _ hfg =>
    ⟨⟨rel_append (rel_reverse hv) hfg.stack, hfg.locals⟩, hfg.paired⟩

lemma pop_eq_ok_iff {f f' : Frame} :
    pop f = .ok (a, f') ↔ f.stack = a :: f'.stack ∧ f'.locals = f.locals := by
  obtain ⟨locals, stack⟩ := f
  obtain ⟨locals', stack'⟩ := f'
  cases stack with
  | nil => simp [show pop ⟨locals, []⟩ = .error (.fault .underflow) from rfl]
  | cons v rest =>
    rw [show pop ⟨locals, v :: rest⟩ = .ok (v, ⟨locals, rest⟩) from rfl]
    simp
    tauto

lemma pop_sim : Kept D L R S R pop pop := by
  intro f g b g' hfg _ hy
  obtain ⟨hs, hl⟩ := pop_eq_ok_iff.1 hy
  have hstack := hfg.stack
  rw [hs] at hstack
  obtain ⟨a, rest, hab, hrest, hf⟩ := forall₂_cons_right_iff.1 hstack
  exact ⟨a, ⟨f.locals, rest⟩, pop_eq_ok_iff.2 ⟨hf, rfl⟩, hab,
    ⟨⟨hrest, hl ▸ hfg.locals⟩, hfg.paired⟩⟩

lemma popAs_sim (hL : Linking h N D L R S T) (want : VType) :
    Kept D L R S R (popAs want) (popAs want) := by
  refine pop_sim.bind fun a b hab => ?_
  rw [(hL.below hab).fits_eq want]
  split_ifs
  · exact .pure hab
  · exact .fail
  · exact .fail

lemma popRef_sim (hL : Linking h N D L R S T) : Kept D L R S R popRef popRef :=
  popAs_sim hL .null

lemma popWord_sim (hL : Linking h N D L R S T) (op : Opcode) :
    Kept D L R S R (popWord op) (popWord op) := by
  refine pop_sim.bind fun a b hab => ?_
  rw [(hL.below hab).isWide_eq]
  split_ifs
  · exact .fail
  · exact .pure hab

/-- Reads a local that has a type. -/
def readAs (slot : Nat) (want : VType) : VType → Effect VType
  | .top => fail (.unsetLocal slot)
  | v =>
    if v.fits want then return v
    else if want.isReference then fail (.localNotRef slot v)
    else fail (.localNot slot v want)

lemma readLocal_eq_ok_iff {slot : Nat} {want : VType} {f f' : Frame} :
    readLocal slot want f = .ok (a, f') ↔ a = slotType f.locals slot ∧ a ≠ .top ∧ a.fits want ∧
    f' = f := by
  have hrun : readLocal slot want f =
      if slotType f.locals slot = .top then .error (.fault (.unsetLocal slot))
      else if (slotType f.locals slot).fits want then .ok (slotType f.locals slot, f)
      else if want.isReference then .error (.fault (.localNotRef slot (slotType f.locals slot)))
      else .error (.fault (.localNot slot (slotType f.locals slot) want)) := by
    change readAs slot want (slotType f.locals slot) f = _
    cases slotType f.locals slot <;> simp only [readAs, reduceCtorEq, if_false, if_true] <;>
      first | rfl | (split_ifs <;> rfl)
  rw [hrun]
  grind

lemma readLocal_sim (hL : Linking h N D L R S T) (slot : Nat) (want : VType) :
    Kept D L R S R (readLocal slot want) (readLocal slot want) := by
  intro f g b g' hfg _ hy
  obtain ⟨rfl, htop, hfits, rfl⟩ := readLocal_eq_ok_iff.1 hy
  have hab := hL.load (hfg.locals slot) htop
  have hbelow := hL.below hab
  refine ⟨_, f, readLocal_eq_ok_iff.2 ⟨rfl, fun hf => ?_, ?_, rfl⟩, hab, hfg⟩
  · exact htop (hf ▸ hbelow).eq_top
  · rw [hbelow.fits_eq]
    exact hfits

end

end Effect

/-! ### Instructions -/

namespace Insn

open Effect

variable {cs : List Char} {a : String}

/-- The type of an element of a reference array is that of its class. -/
lemma ofDescriptor_of_descriptorClass (hr : Hierarchy.isReferenceDescriptor cs = .ok true)
    (hd : Hierarchy.descriptorClass cs = .ok a) :
    VType.ofDescriptor (String.ofList cs) = .ok (.ref a) := by
  cases cs with
  | nil => simp [Hierarchy.isReferenceDescriptor] at hr
  | cons c cs =>
    rcases (by simpa [Hierarchy.isReferenceDescriptor] using hr : c = 'L' ∨ c = '[') with rfl | rfl
    · have hi : orBroken (inner? ('L' :: cs)) = .ok a := hd
      simp only [VType.ofDescriptor, String.toList_ofList]
      rw [hi]
      rfl
    · have ha : String.ofList ('[' :: cs) = a := by
        simpa [Hierarchy.descriptorClass] using hd
      simp only [VType.ofDescriptor, String.toList_ofList]
      rw [ha]
      rfl

/-- The effect of an element of a reference array, once the array is known. -/
def refElement (array : VType) : Effect Unit :=
  match array with
  | .null => push .null
  | .ref cls =>
    match cls.toList with
    | '[' :: rest => do push (← sound (VType.ofDescriptor (String.ofList rest)))
    | _ => fail (.notArray array)
  | _ => fail (.notArray array)

lemma elementEffect_ref :
    elementEffect .ref = (do
      let _ ← popAs .int
      let array ← popRef
      refElement array) := by
  unfold elementEffect refElement
  congr 1
  funext _
  congr 1
  funext array
  cases array <;> rfl

lemma refElement_array (hr : Hierarchy.isReferenceDescriptor cs = .ok true)
    (hd : Hierarchy.descriptorClass cs = .ok a) :
    refElement (.ref (Hierarchy.arrayClass cs)) = push (.ref a) := by
  simp only [refElement, Hierarchy.toList_arrayClass, ofDescriptor_of_descriptorClass hr hd]
  rfl

lemma refElement_not_array (ha : isArrayClass a = false) :
    refElement (.ref a) = fail (.notArray (.ref a)) := by
  simp only [refElement]
  split
  · next hs => simp [isArrayClass, hs] at ha
  · rfl

/-- The context of a method with other code. -/
def withCode (c : CodeContext) (code : Bytes) (handlers : List ExceptionEntry)
    (at? : Nat → Option Insn) : CodeContext :=
  ⟨{ c.method with code, handlers }, c.ret, at?⟩

section

variable {h : Hierarchy} {N : String → Prop} {D : Prop} {L : List VType → Prop} {R S T : VType →
  VType → Prop}

/-- A check of the first local is the same for both frames if `S` keeps the uninitialized
receiver. -/
lemma earlyReturn_sim (hS : ∀ y, S .uninitThis y → y = .uninitThis)
    (b : Bool) :
    Kept D L R S Eq
      (do if b && (← get).locals.head? == some .uninitThis then fail .earlyReturn)
      (do if b && (← get).locals.head? == some .uninitThis then fail .earlyReturn) := by
  intro f g u g' hfg _ hy
  replace hy := StateT.get_bind_eq_ok_iff.1 hy
  have hhead (locals : List VType) :
      (locals.head? == some .uninitThis) = true ↔ slotType locals 0 = .uninitThis := by
    cases locals <;> simp
  have hthis := hS (slotType g.locals 0)
  split at hy
  · exact absurd hy StateT.throw_ne_ok
  · next hg =>
    obtain ⟨rfl, rfl⟩ := StateT.pure_eq_ok_iff.1 hy
    refine ⟨(), f, StateT.bind_eq_ok_iff.2 ⟨f, f, rfl, ?_⟩, rfl, hfg⟩
    rw [if_neg]
    · rfl
    · simp only [hhead, Bool.and_eq_true] at hg ⊢
      rintro ⟨hb, hf⟩
      exact hg ⟨hb, hthis (hf ▸ hfg.locals 0)⟩

variable (hL : Linking h N D L R S T)

include hL

lemma push_proper {v : VType} (hv : v.Proper N) : Kept D L R S Eq (push v) (push v) :=
  push_sim (fun _ _ => id) (hL.refl hv)

/-- Drops the value of a popped operand. -/
lemma popAs_unit (want : VType) : Kept D L R S Eq (do let _ ← popAs want) (do let _ ← popAs want) :=
  (popAs_sim hL want).bind fun _ _ _ => .pure rfl

/-- What is pushed was popped before. -/
lemma stackEffect_sim (op : Opcode) (a : Action) :
    Kept D L R S Eq (stackEffect op a) (stackEffect op a) := by
  have hword := popWord_sim hL op
  have hpop : Kept D L R S R pop pop := pop_sim
  have hwide {x y : VType} (hxy : R x y) : x.isWide = y.isWide := (hL.below hxy).isWide_eq
  cases a <;> simp only [stackEffect] <;>
    repeat' first
      | exact .fail
      | exact .pure rfl
      | exact pushAll_sim (by simp [*])
      | refine hword.bind fun _ _ _ => ?_
      | refine hpop.bind fun _ _ hxy => ?_; rw [hwide hxy]; split_ifs

lemma returnEffect_sim (c : CodeContext) (op : Opcode) (k : Option Kind)
    (hk : k = none → ∀ y, S .uninitThis y → y = .uninitThis) :
    Kept D L R S Eq (returnEffect c op k) (returnEffect c op k) := by
  cases k with
  | none =>
    simp only [returnEffect]
    split_ifs
    · exact .fail_bind
    · exact earlyReturn_sim (hk rfl) _
  | some k =>
    simp only [returnEffect]
    split_ifs
    · exact .fail_bind
    · refine (Sim.sound _).bind fun e e' ⟨he, _⟩ => ?_
      subst he
      split_ifs
      · exact .fail_bind
      · exact popAs_unit hL e

/-- Related frames stay related when an uninitialized value becomes an object. -/
lemma replace_sim {old : VType} (hold : old.Unbuilt) {name : String} (hname : N name) :
    Kept D L R S Eq (modify (·.replace old (.ref name))) (modify (·.replace old (.ref name))) := by
  have hput {x y : VType} (hxy : R x y) :
      R (if x = old then .ref name else x) (if y = old then .ref name else y) := by
    simp only [hold.eq_of_below (hL.below hxy)]
    split_ifs
    · exact hL.refl (VType.proper_ref hname)
    · exact hxy
  refine .modify fun f g hfg => ⟨⟨?_, fun n => ?_⟩, hL.replaced name hold hfg.paired⟩
  · simp only [Frame.replace, forall₂_map_left_iff, forall₂_map_right_iff]
    exact hfg.stack.imp fun _ _ => hput
  · rw [slotType_replace hold, slotType_replace hold]
    have hs := hfg.locals n
    by_cases hy : slotType g.locals n = .top
    · rw [hy] at hs ⊢
      rw [if_neg hold.ne_top.symm]
      split_ifs with hx
      · exact hL.forget hs (hx ▸ hold.ne_top)
      · exact hs
    · exact hL.store (hput (hL.load hs hy))

lemma binaryEffect_sim (t : VType) {result : VType} (hr : result.Proper N) :
    Kept D L R S Eq (binaryEffect t result) (binaryEffect t result) :=
  (popAs_sim hL t).bind fun _ _ _ => (popAs_sim hL t).bind fun _ _ _ => push_proper hL hr

variable {c : CodeContext} (hN : c.method.NamedBy N)

include hN

lemma constantEffect_sim (i : Insn) (wide : Bool) :
    Kept D L R S Eq (constantEffect c i wide) (constantEffect c i wide) := by
  refine (Sim.resolved _).bind fun e e' ⟨he, _⟩ => ?_
  subst he
  split
  case h_3 => exact push_proper hL (VType.proper_ref hN.string)
  case h_4 => exact push_proper hL (VType.proper_ref hN.class_)
  all_goals first | exact push_proper hL ⟨by simp [VType.Unbuilt], nofun⟩ | exact .fail

/-- Elements of related arrays are related. -/
lemma refElement_sim {x y : VType} (hxy : R x y) :
    Sim D (Linked L R S) (Linked L T S) Eq (refElement x) (refElement y) := by
  have hpush {v : VType} (hv : v.Proper N) :
      Sim D (Linked L R S) (Linked L T S) Eq (push v) (push v) :=
    push_sim (fun _ _ => hL.keep) (hL.keep (hL.refl hv))
  have hsame {v : VType} (hv : v.Within N) :
      Sim D (Linked L R S) (Linked L T S) Eq (refElement v) (refElement v) := by
    unfold refElement
    split
    · exact hpush (VType.proper_ofKind .ref)
    · next cls =>
      split
      · next cs hcs =>
        refine (Sim.sound _).bind fun v w ⟨hvw, hw⟩ => ?_
        subst hvw
        refine hpush ⟨VType.not_unbuilt_of_ofDescriptor hw, ?_⟩
        rintro e rfl
        refine hN.element cls e (VType.within_ref.1 hv) ?_
        simp [Hierarchy.elementClass?, isArrayClass, hcs, hw, Except.toOption, VType.class?]
      · exact .fail
    · exact .fail
  cases hL.below hxy with
  | refl => exact hsame (hL.within hxy)
  | null c =>
    simp only [refElement]
    split
    · next rest _ =>
      cases VType.ofDescriptor (String.ofList rest) with
      | ok v => exact push_sim (fun _ _ => hL.keep) (hL.null hxy)
      | error m =>
        intro f g b g' _ _ hy
        obtain ⟨_, _, hm, -⟩ := StateT.bind_eq_ok_iff.1 hy
        exact absurd hm StateT.throw_ne_ok
    · exact .fail
  | @ref a b hu =>
    cases hb : isArrayClass b with
    | false =>
      rw [refElement_not_array hb]
      exact .fail
    | true =>
      intro f g u g' hfg hD hy
      have ha (hd : D) : isArrayClass a = true := by
        obtain ⟨r, hr⟩ := hD hd
        by_contra hn
        rw [refElement_not_array (by simpa using hn)] at hr
        exact absurd hr StateT.throw_ne_ok
      cases hL.element hxy ha hb with
      | refl => exact hsame (hL.within hxy) hfg hD hy
      | elements ra rb da db he =>
        rw [refElement_array ra da] at hD ⊢
        rw [refElement_array rb db] at hy
        exact push_sim (R := R) (fun _ _ => hL.keep) he hfg hD hy

lemma elementEffect_sim (e : Elem) :
    Sim D (Linked L R S) (Linked L T S) Eq (elementEffect e) (elementEffect e) := by
  by_cases he : e = .ref
  · subst he
    rw [elementEffect_ref]
    exact (popAs_sim hL .int).bind fun _ _ _ => (popRef_sim hL).bind fun x y hxy =>
      refElement_sim hL hN hxy
  · refine (popAs_sim hL .int).bind fun _ _ _ => (popRef_sim hL).bind fun x y hxy => ?_
    cases e <;> first | exact absurd rfl he | skip
    all_goals exact push_sim (fun _ _ => hL.keep) (hL.keep (hL.refl (VType.proper_ofKind _)))

lemma fieldEffect_sim (i : Insn) (isStatic write : Bool) :
    Kept D L R S Eq (fieldEffect c i isStatic write) (fieldEffect c i isStatic write) := by
  refine (Sim.resolved _).bind fun m m' ⟨hm, hr⟩ => ?_
  subst hm
  refine (Sim.sound _).bind fun t t' ⟨ht, hd⟩ => ?_
  subst ht
  have hpush : Kept D L R S Eq (push t) (push t) :=
    push_proper hL ⟨VType.not_unbuilt_of_ofDescriptor hd, hN.member _ m _ t hr (.inl rfl) hd⟩
  cases write <;> cases isStatic <;> dsimp only
  · exact (popRef_sim hL).bind fun _ _ _ => hpush
  · exact hpush
  · exact (popAs_sim hL t).bind fun _ _ _ => (popRef_sim hL).bind fun _ _ _ => .pure rfl
  · exact popAs_unit hL t

variable {code : Bytes} {handlers : List ExceptionEntry} {at? : Nat → Option Insn}
  (hat : ∀ offset, R (.uninit offset) (.uninit offset) → at? offset = c.at? offset)

include hat

/-- Constructors look at code only where a value was made. -/
lemma constructEffect_sim (op : Opcode) {x y : VType} (hxy : R x y) (owner : String) :
    Kept D L R S Eq (constructEffect (withCode c code handlers at?) op x owner)
    (constructEffect c op y owner) := by
  unfold constructEffect
  dsimp only
  split_ifs
  · exact .fail_bind
  · cases y with
    | uninitThis =>
      have hu : VType.uninitThis.Unbuilt := .inl rfl
      obtain rfl := (hu.eq_of_below (hL.below hxy)).2 rfl
      exact replace_sim hL hu hN.owner
    | uninit offset =>
      have hu : (VType.uninit offset).Unbuilt := .inr ⟨offset, rfl⟩
      obtain rfl := (hu.eq_of_below (hL.below hxy)).2 rfl
      simp only [withCode, hat offset hxy]
      split
      · split_ifs
        · exact .fail_bind
        · refine (Sim.resolved _).bind fun a b ⟨hab, hname⟩ => ?_
          subst hab
          split_ifs
          · exact .fail_bind
          · exact replace_sim hL hu (hN.pool _ _ hname).1
      · exact .fail
    | _ => exact .fail

lemma invokeEffect_sim (i : Insn) (isStatic : Bool) :
    Kept D L R S Eq (invokeEffect (withCode c code handlers at?) i isStatic)
    (invokeEffect c i isStatic) := by
  unfold invokeEffect
  refine (Sim.resolved _).bind fun m m' ⟨hm, hr⟩ => ?_
  subst hm
  cases hsig : Descriptor.parse m.desc with
  | error e => exact .fail
  | ok sig =>
    have hpush : Kept D L R S Eq
        (do if sig.2 ≠ "V" then push (← sound (VType.ofDescriptor sig.2)))
        (do if sig.2 ≠ "V" then push (← sound (VType.ofDescriptor sig.2))) := by
      split_ifs
      · refine (Sim.sound _).bind fun t t' ⟨ht, hd⟩ => ?_
        subst ht
        exact push_proper hL ⟨VType.not_unbuilt_of_ofDescriptor hd,
          hN.member _ m _ t hr (.inr ⟨sig, hsig, rfl⟩) hd⟩
      · exact .pure rfl
    refine (Sim.forIn fun p _ => ?_).bind fun _ _ _ => ?_
    · refine (Sim.sound _).bind fun t t' ⟨ht, _⟩ => ?_
      exact ht ▸ (popAs_sim hL t).bind fun _ _ _ => .pure rfl
    cases isStatic with
    | true => exact hpush
    | false =>
      refine (popRef_sim hL).bind fun x y hxy => ?_
      by_cases hinit : m.name = "<init>"
      · simp only [hinit, if_true]
        exact (constructEffect_sim hL hN hat i.op hxy m.owner).bind fun _ _ _ => hpush
      · simp only [hinit, if_false]
        exact hpush

/-- Every instruction keeps related frames related, also in other code where that has the same
instructions. Only a return looks at more than the relations tell: at the receiver of a
constructor. -/
lemma effect_sim (i : Insn) (hnew : R (.uninit i.offset) (.uninit i.offset))
    (hret : i.op.action? = some .returnVoid → ∀ y, S .uninitThis y → y = .uninitThis) :
    Sim D (Linked L R S) (Linked L T S) Eq (i.effect (withCode c code handlers at?))
    (i.effect c) := by
  have hkeep {x y : Effect Unit} (hx : Kept D L R S Eq x y) :
      Sim D (Linked L R S) (Linked L T S) Eq x y :=
    hx.mono (fun _ _ => id) fun _ _ hfg =>
      ⟨⟨hfg.stack.imp fun _ _ => hL.keep, hfg.locals⟩, hfg.paired⟩
  have hpush {v : VType} (hv : v.Proper N) := push_proper hL hv
  have hpop (v : VType) := popAs_sim hL v
  have hclass := Sim.resolved (D := D) (P := Linked L R S) (c.method.pool.classAt i.poolIndex)
  have hkind (k : Kind) := VType.proper_ofKind (N := N) k
  unfold effect
  cases ha : i.op.action? with
  | none => exact .fail
  | some a =>
    cases a
    case arrayLoad e => exact elementEffect_sim hL hN e
    all_goals apply hkeep
    case nop | goto | gotoWide => exact .pure rfl
    case constNull => exact hpush (hkind .ref)
    case constInt | pushByte | pushShort => exact hpush (hkind .int)
    case constLong => exact hpush (hkind .long)
    case constFloat => exact hpush (hkind .float)
    case constDouble => exact hpush (hkind .double)
    case ldc | ldcWide | ldcTwo => exact constantEffect_sim hL hN i _
    case load | loadAt =>
      exact (readLocal_sim hL _ _).bind fun _ _ hv => push_sim (fun _ _ => id) hv
    case store | storeAt =>
      refine (hpop _).bind fun v w hv => .modify fun f g hfg => ?_
      exact ⟨⟨hfg.stack, hL.storeLocal hfg.paired hfg.locals _ hv⟩, hL.stored _ _ hfg.paired⟩
    case increment => exact (readLocal_sim hL _ _).bind fun _ _ _ => .pure rfl
    case arrayStore =>
      exact (hpop _).bind fun _ _ _ => (hpop _).bind fun _ _ _ => popAs_unit hL _
    case pop | pop2 | dup | dupX1 | dupX2 | dup2 | dup2X1 | dup2X2 | swap =>
      exact stackEffect_sim hL _ _
    case arith n => exact binaryEffect_sim hL _ (hkind _)
    case compareLong | compareFloat | compareDouble => exact binaryEffect_sim hL _ (hkind .int)
    case neg | convert => exact (hpop _).bind fun _ _ _ => hpush (hkind _)
    case bits op long =>
      refine (hpop _).bind fun _ _ _ => (hpop _).bind fun _ _ _ => hpush ?_
      cases long
      · exact hkind .int
      · exact hkind .long
    case ifZero | tableSwitch | lookupSwitch => exact popAs_unit hL _
    case ifInts | ifRefs => exact (hpop _).bind fun _ _ _ => popAs_unit hL _
    case ifNull | ifNonNull | throwValue | monitorEnter | monitorExit => exact popAs_unit hL _
    case returnValue k => exact returnEffect_sim hL c i.op (some k) nofun
    case returnVoid => exact returnEffect_sim hL c i.op none fun _ => hret ha
    case getStatic | putStatic | getField | putField => exact fieldEffect_sim hL hN i _ _
    case invokeVirtual | invokeSpecial | invokeInterface | invokeStatic =>
      exact invokeEffect_sim hL hN hat i _
    case new => exact hclass.bind fun _ _ _ => push_sim (fun _ _ => id) hnew
    case newArray =>
      refine (hpop _).bind fun _ _ _ => ?_
      split
      · next desc hdesc => exact hpush (VType.proper_ref (hN.primitive _ desc hdesc))
      · exact .fail
    case newRefArray =>
      refine (hpop _).bind fun _ _ _ => hclass.bind fun a b ⟨hab, hname⟩ => ?_
      subst hab
      rw [Hierarchy.append_classDescriptor]
      exact hpush (VType.proper_ref (hN.pool _ _ hname).2)
    case newMultiArray =>
      refine (Sim.forIn fun _ _ => (hpop _).bind fun _ _ _ => .pure rfl).bind fun _ _ _ =>
        hclass.bind fun a b ⟨hab, hname⟩ => ?_
      exact hab ▸ hpush (VType.proper_ref (hab ▸ (hN.pool _ _ hname).1))
    case arrayLength | instanceOf => exact (hpop _).bind fun _ _ _ => hpush (hkind .int)
    case checkCast =>
      refine (hpop _).bind fun _ _ _ => hclass.bind fun a b ⟨hab, hname⟩ => ?_
      exact hab ▸ hpush (VType.proper_ref (hab ▸ (hN.pool _ _ hname).1))
    case jsr | ret | invokeDynamic | wide | jsrWide => exact .fail

end

lemma transfer_eq_ok_iff {c : CodeContext} {i : Insn} {f g : Frame} :
    i.transfer c f = .ok g ↔ i.effect c f = .ok ((), g) := by
  simp only [transfer, StateT.run, Except.bind_eq_ok_iff, Except.pure_eq_ok_iff, Prod.exists,
    exists_eq_right]
  exact ⟨fun ⟨_, hu⟩ => hu, fun hu => ⟨_, hu⟩⟩

variable {h : Hierarchy} {c : CodeContext} {i : Insn} {f f' g g' : Frame} {offsets : Nat → Prop}
  {code : Bytes} {handlers : List ExceptionEntry} {at? : Nat → Option Insn}

/-- Frames of the same shape, the first with two-word locals paired and with values that are not
built made at one of the offsets. -/
abbrev Fitting (h : Hierarchy) (offsets : Nat → Prop) : Frame → Frame → Prop :=
  Linked Paired (VType.MadeAt h offsets) (VType.MadeAt h offsets)

/-- On a frame of the same shape and below, an instruction passes where it passes above, and gives a
frame of the same shape. -/
lemma transfer_fitting (hat : ∀ offset, offsets offset → at? offset = c.at? offset)
    (hi : offsets i.offset) (hfg : Fitting h offsets f g) (hg : i.transfer c g = .ok g') :
    ∃ f', i.transfer (withCode c code handlers at?) f = .ok f' ∧ Fitting h offsets f' g' := by
  have hS (y : VType) (hy : VType.MadeAt h offsets .uninitThis y) : y = .uninitThis := by
    cases hy.1
    rfl
  obtain ⟨_, f', hf, -, hfg'⟩ :=
    effect_sim (linking_madeAt offsets) c.method.namedBy_true
      (fun offset ho => hat offset (ho.2 offset rfl)) i
      ⟨.refl _, by rintro offset ⟨⟩; exact hi⟩ (fun _ => hS) hfg nofun (transfer_eq_ok_iff.1 hg)
  exact ⟨f', transfer_eq_ok_iff.2 hf, hfg'⟩

/-- Instructions that pass keep assignable frames assignable, but for elements of null. -/
lemma transfer_loose (hp : Paired f.locals) (hfg : f.Passes h g)
    (hret : i.op.action? ≠ some .returnVoid) (hf : i.transfer c f = .ok f')
    (hg : i.transfer c g = .ok g') : f'.Loose h g' := by
  have hrun := transfer_eq_ok_iff.1 hf
  obtain ⟨_, f₁, hf₁, -, hfg'⟩ :=
    effect_sim linking_passes c.method.namedBy_true (fun _ _ => rfl) i (.refl _)
      (fun hr => absurd hr hret) ⟨hfg, hp⟩ (fun _ => ⟨_, hrun⟩) (transfer_eq_ok_iff.1 hg)
  obtain rfl : f₁ = f' := (Prod.mk.inj (Except.ok.inj (hf₁.symm.trans hrun))).2
  exact hfg'.toRel

/-- An instruction keeps two-word locals paired, and makes values at its own offset only. -/
lemma transfer_self (hi : offsets i.offset) (hf : Fitting h offsets f f)
    (hg : i.transfer c f = .ok g) : Fitting h offsets g g := by
  obtain ⟨g', hg', hfit⟩ := transfer_fitting (fun _ _ => rfl) hi hf hg
  obtain rfl : g' = g := Except.ok.inj (hg'.symm.trans hg)
  exact hfit

end Insn

end Classwright
