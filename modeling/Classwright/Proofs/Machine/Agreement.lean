import Mathlib.Data.Option.Defs
import Classwright.Proofs.Machine.Reached

/-!
Runs that agree.

Two states are alike if they differ in analysed code alone: some methods of the one have in the
other the code that an analysis leaves of theirs. Computations agree if they do the same in states
that are alike, and come to states that are alike. The rules of this relation follow the monad, so
that a computation agrees with itself once its parts do; all that finds methods and fields, and all
that platform methods do, is made of such parts, given that the methods called agree.
-/

namespace Classwright.Machine

/-! ### Lists and options -/

section

variable {α β γ : Type} {R : α → β → Prop}

/-- The keys are the same, and what they are paired with is alike. -/
lemma rel_lookup {xs : List (String × α)} {ys : List (String × β)}
    (h : List.Forall₂ (fun x y => x.1 = y.1 ∧ R x.2 y.2) xs ys) (key : String) :
    Option.Rel R (xs.lookup key) (ys.lookup key) := by
  induction h with
  | nil => exact .none
  | @cons x y xs ys hxy _ ih =>
    obtain ⟨k, a⟩ := x
    obtain ⟨k', b⟩ := y
    obtain ⟨rfl, hab⟩ := hxy
    rw [List.lookup_cons, List.lookup_cons]
    cases key == k with
    | true => exact .some hab
    | false => exact ih

/-- The first of some finds is alike if each of them is. -/
lemma rel_findSome? {f : γ → Option α} {g : γ → Option β} (h : ∀ c, Option.Rel R (f c) (g c))
    (cs : List γ) : Option.Rel R (cs.findSome? f) (cs.findSome? g) := by
  induction cs with
  | nil => exact .none
  | cons c cs ih =>
    rw [List.findSome?_cons, List.findSome?_cons]
    have hc := h c
    generalize f c = x, g c = y at hc
    cases hc with
    | some hab => exact .some hab
    | none => exact ih

lemma rel_orElse {x x' : Option α} {y y' : Option β} (h : Option.Rel R x y)
    (h' : Option.Rel R x' y') : Option.Rel R (x <|> x') (y <|> y') := by
  cases h with
  | some hab => exact .some hab
  | none => simpa using h'

end

/-! ### States that are alike -/

/-- A method with code of its own. -/
def Routine.withCode (r : Routine) (c : CodeAttribute) (insns : List Insn) : Routine :=
  { r with body := .code c (insnTable c.code.length insns) }

/-- A method, and the same with its code as an analysis leaves it. -/
inductive Routine.Analysed : Routine → Routine → Prop
  | refl (r : Routine) : Analysed r r
  | code (r : Routine) (c : CodeAttribute) {m : MethodCode} {h : Hierarchy} {a : Analysis}
      {insns insns' : List Insn} (hlen : m.code.length ≤ 65536) (ha : m.analyze h = .ok a)
      (hinsns : Insn.decodeAll m.code = .ok insns) (hinsns' : Insn.decodeAll a.code = .ok insns') :
      Analysed (r.withCode { c with code := m.code, handlers := m.handlers } insns)
        (r.withCode { c with code := a.code, handlers := a.handlers } insns')

namespace Routine.Analysed

variable {r r' : Routine}

/-- An analysis leaves all but the code of a method. -/
lemma isAbstract_eq (h : r.Analysed r') : r'.isAbstract = r.isAbstract := by
  cases h <;> rfl

lemma pool_eq (h : r.Analysed r') : r'.pool = r.pool := by
  cases h <;> rfl

lemma text_eq (h : r.Analysed r') : r'.text = r.text := by
  cases h <;> rfl

end Routine.Analysed

/-- Classes that differ in analysed code alone. -/
structure LoadedClass.Analysed (c c' : LoadedClass) : Prop where
  routines : List.Forall₂ (fun x y => x.1 = y.1 ∧ x.2.Analysed y.2) c.routines c'.routines
  fields : c'.file.field? = c.file.field?
  rest : c' = { c with routines := c'.routines, file := c'.file }

/-- States that differ in analysed code alone. -/
structure State.Analysed (s s' : State) : Prop where
  classes : List.Forall₂ (fun x y => x.1 = y.1 ∧ x.2.Analysed y.2) s.classes s'.classes
  rest : s' = { s with classes := s'.classes }

lemma LoadedClass.Analysed.refl (c : LoadedClass) : c.Analysed c where
  routines := List.forall₂_same.2 fun x _ => ⟨rfl, .refl x.2⟩
  fields := rfl
  rest := rfl

lemma State.Analysed.refl (s : State) : s.Analysed s where
  classes := List.forall₂_same.2 fun x _ => ⟨rfl, .refl x.2⟩
  rest := rfl

namespace LoadedClass.Analysed

variable {c c' : LoadedClass} (h : c.Analysed c')

include h

/-- An analysis leaves all but the methods of a class. -/
lemma name_eq : c'.name = c.name := by rw [h.rest]

lemma super_eq : c'.super = c.super := by rw [h.rest]

lemma interfaces_eq : c'.interfaces = c.interfaces := by
  rw [h.rest]

lemma statics_eq : c'.statics = c.statics := by rw [h.rest]

lemma phase_eq : c'.phase = c.phase := by rw [h.rest]

/-- The rest of a class may change in the same way. -/
lemma change {f : LoadedClass → LoadedClass}
    (hf : ∀ (c : LoadedClass) rs file, f { c with routines := rs, file := file } =
      { f c with routines := rs, file := file }) : (f c).Analysed (f c') := by
  have heq := hf c c'.routines c'.file
  rw [← h.rest] at heq
  have hsame := hf c c.routines c.file
  have hrs : (f c).routines = c.routines := by rw [hsame]
  have hfile : (f c).file = c.file := by rw [hsame]
  have hrs' : (f c').routines = c'.routines := by rw [heq]
  have hfile' : (f c').file = c'.file := by rw [heq]
  exact ⟨hrs ▸ hrs' ▸ h.routines, hfile ▸ hfile' ▸ h.fields, by rw [hrs', hfile']; exact heq⟩

end LoadedClass.Analysed

namespace State.Analysed

variable {s s' : State} (h : s.Analysed s')

include h

/-- What does not depend on the classes is the same. -/
lemma eq_of {α : Type} {f : State → α}
    (hf : ∀ (s : State) classes, f { s with classes } = f s := by intros; rfl) : f s' = f s := by
  rw [h.rest, hf]

/-- All but the classes may change in the same way. -/
lemma change {f : State → State}
    (hf : ∀ (s : State) classes, f { s with classes } = { f s with classes }) :
    (f s).Analysed (f s') := by
  -- a change that leaves the classes alone commutes with putting others in their place
  have heq := hf s s'.classes
  rw [← h.rest] at heq
  have hsame := hf s s.classes
  have hc : (f s).classes = s.classes := by rw [hsame]
  have hc' : (f s').classes = s'.classes := by rw [heq]
  exact ⟨hc ▸ hc' ▸ h.classes, by rw [hc']; exact heq⟩

/-- One class may change in the same way in both. -/
lemma changeClass (name : String) {f : LoadedClass → LoadedClass}
    (hf : ∀ {c c'}, c.Analysed c' → (f c).Analysed (f c')) :
    (s.changeClass name f).Analysed (s'.changeClass name f) where
  classes := by
    show List.Forall₂ _ (s.classes.map _) (s'.classes.map _)
    rw [List.forall₂_map_left_iff, List.forall₂_map_right_iff]
    refine h.classes.imp ?_
    rintro ⟨n, c⟩ ⟨n', c'⟩ ⟨rfl, hc⟩
    refine ⟨rfl, ?_⟩
    show (if n = name then f c else c).Analysed (if n = name then f c' else c')
    split
    · exact hf hc
    · exact hc
  rest := by
    conv_lhs => rw [h.rest]
    rfl

/-- Classes have the same names. -/
lemma class? (cls : String) : Option.Rel LoadedClass.Analysed (s.class? cls) (s'.class? cls) :=
  rel_lookup h.classes cls

lemma length_classes : s'.classes.length = s.classes.length :=
  h.classes.length_eq.symm

/-- Values do not depend on the classes, and neither do theirs. -/
lemma classOf_eq : s'.classOf = s.classOf :=
  h.eq_of fun s classes => by funext v; cases v <;> rfl

lemma isLoaded_eq : s'.isLoaded = s.isLoaded := by
  funext cls
  unfold isLoaded
  have hc := h.class? cls
  generalize s.class? cls = x, s'.class? cls = y at hc
  cases hc <;> rfl

/-- A class that is not loaded is looked up in the hierarchy, which is the same. -/
lemma superOf_eq : s'.superOf = s.superOf := by
  funext cls
  unfold superOf
  have hc := h.class? cls
  rw [h.eq_of (f := State.hierarchy)]
  generalize s.class? cls = x, s'.class? cls = y at hc
  cases hc with
  | some hc => simp only [hc.super_eq]
  | none => rfl

lemma interfacesOf_eq : s'.interfacesOf = s.interfacesOf := by
  funext cls
  unfold interfacesOf
  have hc := h.class? cls
  generalize s.class? cls = x, s'.class? cls = y at hc
  cases hc with
  | some hc => exact hc.interfaces_eq
  | none => rfl

lemma height_eq : s'.height = s.height := by
  rw [height, height, h.length_classes]

/-- By induction on the number of superclasses that are followed. -/
lemma chain_eq : s'.chain = s.chain := by
  have hup (n : Nat) (cls : String) : s'.chainUpTo n cls = s.chainUpTo n cls := by
    induction n generalizing cls with
    | zero => rfl
    | succ n ih => rw [chainUpTo, chainUpTo, h.superOf_eq, ih]
  funext cls
  rw [chain, chain, h.height_eq, hup]

/-- Interfaces are followed in the same way. -/
lemma extends_eq : s'.extends' = s.extends' := by
  have hup (target : String) (n : Nat) (cls : String) :
      s'.implementsUpTo target n cls = s.implementsUpTo target n cls := by
    induction n generalizing cls with
    | zero => rfl
    | succ n ih => simp only [implementsUpTo, h.interfacesOf_eq, ih]
  funext source target
  simp only [extends', h.chain_eq, h.height_eq, hup]

lemma isAssignable_eq : s'.isAssignable = s.isAssignable := by
  have hup (n : Nat) (source target : String) :
      s'.assignableUpTo n source target = s.assignableUpTo n source target := by
    induction n generalizing source target with
    | zero => rfl
    | succ n ih => simp only [assignableUpTo, h.extends_eq, ih]
  funext source target
  exact hup _ _ _

/-! ### Methods and fields -/

/-- The methods of a class that is not loaded are those of the platform. -/
lemma declared? (cls name desc : String) :
    Option.Rel Routine.Analysed (s.declared? cls name desc) (s'.declared? cls name desc) := by
  unfold State.declared?
  have hc := h.class? cls
  generalize s.class? cls = x, s'.class? cls = y at hc
  cases hc with
  | some hc => exact rel_lookup hc.routines _
  | none =>
    cases Platform.find? cls name desc with
    | some p => exact .some (.refl _)
    | none => exact .none

/-- A method that is abstract is so on both sides. -/
lemma concrete? (cls name desc : String) :
    Option.Rel Routine.Analysed (s.concrete? cls name desc) (s'.concrete? cls name desc) := by
  unfold State.concrete?
  have hr := h.declared? cls name desc
  generalize s.declared? cls name desc = x, s'.declared? cls name desc = y at hr
  cases hr with
  | none => exact .none
  | @some r r' hr =>
    rw [Option.filter_some, Option.filter_some, hr.isAbstract_eq]
    cases r.isAbstract with
    | true => exact .none
    | false => exact .some hr

/-- By induction on how far interfaces are followed. -/
lemma defaultUpTo (name desc : String) (n : Nat) (is : List String) :
    Option.Rel Routine.Analysed (s.defaultUpTo name desc n is) (s'.defaultUpTo name desc n is) := by
  induction n generalizing is with
  | zero => exact .none
  | succ n ih =>
    refine rel_findSome? (fun i => ?_) is
    rw [h.interfacesOf_eq]
    exact rel_orElse (h.concrete? i name desc) (ih _)

/-- Superclasses are searched from the class on. -/
lemma static? (cls name desc : String) :
    Option.Rel Routine.Analysed (s.static? cls name desc) (s'.static? cls name desc) := by
  unfold State.static?
  rw [h.chain_eq]
  exact rel_findSome? (fun c => h.declared? c name desc) _

/-- The method itself, or else one of a superclass. -/
lemma special? (cls name desc : String) :
    Option.Rel Routine.Analysed (s.special? cls name desc) (s'.special? cls name desc) := by
  unfold State.special?
  simp only [h.chain_eq, h.isLoaded_eq]
  refine rel_orElse (h.declared? cls name desc) ?_
  split
  · exact .none
  · exact rel_findSome? (fun c => h.concrete? c name desc) _

/-- A method of a superclass goes before one of an interface. -/
lemma virtual? (cls name desc : String) :
    Option.Rel Routine.Analysed (s.virtual? cls name desc) (s'.virtual? cls name desc) := by
  unfold State.virtual?
  rw [h.chain_eq, h.interfacesOf_eq, h.height_eq]
  exact rel_orElse (rel_findSome? (fun c => h.concrete? c name desc) _)
    (rel_findSome? (fun c => h.defaultUpTo name desc _ _) _)

/-- The files of classes may differ, but not in their fields. -/
lemma staticOwner?_eq : s'.staticOwner? = s.staticOwner? := by
  have hup (name : String) (n : Nat) (cls : String) :
      s'.staticOwnerUpTo name n cls = s.staticOwnerUpTo name n cls := by
    induction n generalizing cls with
    | zero => rfl
    | succ n ih =>
      rw [staticOwnerUpTo, staticOwnerUpTo, h.chain_eq]
      congr 1
      funext c
      have hc := h.class? c
      generalize s.class? c = x, s'.class? c = y at hc
      cases hc with
      | none => rfl
      | some hc => simp only [hc.fields, hc.name_eq, hc.interfaces_eq, funext (ih ·)]
  funext cls name
  rw [staticOwner?, staticOwner?, h.height_eq, hup]

end State.Analysed

/-! ### Computations that agree -/

/-- Values that are alike, or the same stop. -/
inductive Outcome {α β : Type} (R : α → β → Prop) : Except Stop α → Except Stop β → Prop
  | ok {a : α} {b : β} (h : R a b) : Outcome R (.ok a) (.ok b)
  | stop (e : Stop) : Outcome R (.error e) (.error e)

lemma Outcome.refl {α : Type} (x : Except Stop α) : Outcome Eq x x := by
  cases x with
  | ok a => exact .ok rfl
  | error e => exact .stop e

lemma Outcome.eq {α : Type} {x y : Except Stop α} (h : Outcome Eq x y) : x = y := by
  cases h with
  | ok h => rw [h]
  | stop e => rfl

/-- Computations that come to the same, in states that are alike. -/
def Agree {α β : Type} (R : α → β → Prop) (x : Exec α) (y : Exec β) : Prop :=
  ∀ ⦃s s'⦄, s.Analysed s' → Outcome R (x s).1 (y s').1 ∧ (x s).2.Analysed (y s').2

/-- A computation that comes to the same in states that are alike. -/
abbrev Stable {α : Type} (x : Exec α) : Prop := Agree Eq x x

namespace Agree

variable {α β γ δ : Type} {R : α → β → Prop} {S : γ → δ → Prop} {x : Exec α} {y : Exec β}

lemma pure {a : α} {b : β} (h : R a b) : Agree R (pure a) (pure b) := fun _ _ hs => ⟨.ok h, hs⟩

lemma throw (e : Stop) : Agree R (throw e) (throw e) := fun _ _ hs => ⟨.stop e, hs⟩

lemma fault (f : Fault) : Agree R (fault f) (fault f) := throw _

lemma crash : Agree R crash crash := throw _

lemma badCode : Agree R badCode badCode := throw _

/-- What comes after values that are alike. -/
lemma bind {f : α → Exec γ} {g : β → Exec δ} (h : Agree R x y)
    (hfg : ∀ {a b}, R a b → Agree S (f a) (g b)) : Agree S (x >>= f) (y >>= g) := by
  intro s s' hs
  obtain ⟨hr, hs⟩ := h hs
  rw [bind_apply, bind_apply]
  generalize x s = p, y s' = q at hr hs
  obtain ⟨p, t⟩ := p
  obtain ⟨q, t'⟩ := q
  cases hr with
  | ok h => exact hfg h hs
  | stop e => exact ⟨.stop e, hs⟩

/-- What comes after the same value. -/
lemma seq {x' : Exec α} {f : α → Exec γ} {g : α → Exec δ} (h : Agree Eq x x')
    (hfg : ∀ a, Agree S (f a) (g a)) : Agree S (x >>= f) (x' >>= g) :=
  h.bind (by rintro a _ rfl; exact hfg a)

lemma map {x' : Exec α} {f : α → γ} (h : Agree Eq x x') :
    Agree Eq (x >>= fun a => Pure.pure (f a)) (x' >>= fun a => Pure.pure (f a)) :=
  h.seq fun _ => .pure rfl

/-- The states that are read are alike. -/
lemma get : Agree State.Analysed get get := fun _ _ hs => ⟨.ok hs, hs⟩

/-- A change of all but the classes. -/
lemma change {f : State → State}
    (hf : ∀ (s : State) classes, f { s with classes } = { f s with classes }) : Stable (modify f) :=
  fun _ _ hs => ⟨.ok rfl, hs.change hf⟩

/-- A change of a class in all but its code. -/
lemma changeClass (cls : String) {f : LoadedClass → LoadedClass}
    (hf : ∀ (c : LoadedClass) rs file, f { c with routines := rs, file := file } =
      { f c with routines := rs, file := file }) :
    Stable (modify fun s => s.changeClass cls f) :=
  fun _ _ hs => ⟨.ok rfl, hs.changeClass cls fun hc => hc.change hf⟩

lemma ite {p : Prop} [Decidable p] {x' : Exec α} {y' : Exec β} (h : Agree R x y)
    (h' : Agree R x' y') : Agree R (if p then x else x') (if p then y else y') := by
  split
  · exact h
  · exact h'

lemma foldlM {f g : γ → δ → Exec γ} (h : ∀ c d, Agree Eq (f c d) (g c d)) (ds : List δ) (c : γ) :
    Agree Eq (ds.foldlM f c) (ds.foldlM g c) := by
  induction ds generalizing c with
  | nil => exact .pure rfl
  | cons d ds ih =>
    rw [List.foldlM_cons, List.foldlM_cons]
    exact (h c d).seq ih

lemma mapM {f g : γ → Exec δ} (h : ∀ c, Agree Eq (f c) (g c)) (cs : List γ) :
    Agree Eq (cs.mapM f) (cs.mapM g) := by
  induction cs with
  | nil => exact .pure rfl
  | cons c cs ih =>
    rw [List.mapM_cons, List.mapM_cons]
    exact (h c).seq fun d => ih.seq fun ds => .pure rfl

/-! ### The heap -/

lemma sure (a : Option α) : Stable (sure a) := by
  cases a with
  | some a => exact .pure rfl
  | none => exact .crash

lemma pooled (e : Except PoolError α) : Stable (pooled e) := by
  cases e with
  | ok a => exact .pure rfl
  | error e => exact .fault _

lemma unbroken (e : Except Misuse α) : Stable (unbroken e) := by
  cases e with
  | ok a => exact .pure rfl
  | error e => exact .crash

/-- As many objects have been made before. -/
lemma newObject (cls : String) : Stable (newObject cls) :=
  seq (change fun _ _ => rfl) fun _ => get.bind fun hs =>
    .pure (hs.eq_of (f := fun s => s.objects.size)).symm

lemma newArray (desc : String) (data : Array Value) : Stable (newArray desc data) :=
  seq (change fun _ _ => rfl) fun _ => get.bind fun hs =>
    .pure (hs.eq_of (f := fun s => Value.arr (s.arrays.size - 1))).symm

/-- The heap is the same in both states. -/
lemma getObject (id : Nat) : Stable (getObject id) :=
  get.bind fun {s s'} hs => by
    rw [hs.eq_of (f := fun s => s.object? id)]
    exact sure _

lemma getArray (id : Nat) : Stable (getArray id) :=
  get.bind fun {s s'} hs => by
    rw [hs.eq_of (f := fun s => s.array? id)]
    exact sure _

lemma setField (id : Nat) (name : String) (v : Value) : Stable (setField id name v) :=
  change fun _ _ => rfl

lemma setNative (id : Nat) (n : Native) : Stable (setNative id n) :=
  change fun _ _ => rfl

/-- The exception is a new object, and as such the same. -/
lemma raise (cls message : String) : Agree R (raise cls message) (raise cls message) := by
  refine (newObject cls).seq fun id => ?_
  dsimp only
  split
  · exact (setField _ _ _).seq fun _ => .throw _
  · exact .throw _

/-- Nothing comes after an exception. -/
lemma raise_bind (cls message : String) {f : α → Exec γ} {g : β → Exec δ} :
    Agree S (Machine.raise cls message >>= f) (Machine.raise cls message >>= g) :=
  (raise (R := fun _ _ => False) cls message).bind False.elim

/-- The object of a class is made when it is first asked for. -/
lemma classObject (name : String) : Stable (classObject name) := by
  refine get.bind fun {s s'} hs => ?_
  rw [hs.eq_of (f := State.classObjects)]
  cases s.classObjects.lookup name with
  | some id => exact .pure rfl
  | none =>
    exact (newObject _).seq fun id => (setNative _ _).seq fun _ =>
      seq (change fun _ _ => rfl) fun _ => .pure rfl

lemma instanceOf (v : Value) (cls : String) : Stable (instanceOf v cls) := by
  refine .ite (.pure rfl) (get.bind fun {s s'} hs => ?_)
  rw [hs.isAssignable_eq, hs.classOf_eq]
  exact unbroken _

/-! ### Finding methods and fields -/

/-- Both are found, or neither is. -/
lemma found {r r' : Option Routine} (h : Option.Rel Routine.Analysed r r') (what : String) :
    Agree Routine.Analysed (found r what) (found r' what) := by
  cases h with
  | some h => exact .pure h
  | none => exact .fault _

lemma findStatic (cls name desc : String) :
    Agree Routine.Analysed (findStatic cls name desc) (findStatic cls name desc) :=
  get.bind fun hs => found (hs.static? cls name desc) _

lemma findSpecial (cls name desc : String) :
    Agree Routine.Analysed (findSpecial cls name desc) (findSpecial cls name desc) :=
  get.bind fun hs => found (hs.special? cls name desc) _

/-- A method that is found may have been analysed. -/
lemma findVirtual (cls name desc : String) :
    Agree Routine.Analysed (findVirtual cls name desc) (findVirtual cls name desc) :=
  get.bind fun hs => found (hs.virtual? cls name desc) _

lemma zeroOf (desc : String) : Stable (zeroOf desc) := by
  unfold Machine.zeroOf
  split
  · exact .pure rfl
  · exact .crash

end Agree

/-- Ways to run methods that agree. -/
def Invoke.Agree (inv inv' : Invoke) : Prop :=
  ∀ ⦃r r' : Routine⦄, r.Analysed r' → ∀ args, Machine.Agree Eq (inv r args) (inv' r' args)

namespace Agree

variable {inv inv' : Invoke} (h : inv.Agree inv')

include h

/-- A class is initialized after its superclass. -/
lemma initializeUpTo (n : Nat) (cls : String) :
    Agree Eq (initializeUpTo inv n cls) (initializeUpTo inv' n cls) := by
  induction n generalizing cls with
  | zero => exact .throw _
  | succ n ih =>
    refine get.bind fun {s s'} hs => ?_
    have hc := hs.class? cls
    generalize s.class? cls = x, s'.class? cls = y at hc
    cases hc with
    | none => exact .pure rfl
    | @some c c' hc =>
      dsimp only
      rw [hc.phase_eq, hc.super_eq]
      refine .ite (.pure rfl) (.seq (.changeClass cls fun _ _ _ => rfl) fun _ => ?_)
      refine (ih c.super).seq fun _ => ?_
      -- both have an initializer, which agrees, or neither has one
      have hr := rel_lookup hc.routines "<clinit>()V"
      generalize c.routines.lookup _ = x, c'.routines.lookup _ = y at hr
      cases hr with
      | none => exact .changeClass cls fun _ _ _ => rfl
      | some hr => exact (h hr []).seq fun _ => .changeClass cls fun _ _ _ => rfl

lemma initClass (cls : String) : Agree Eq (initClass inv cls) (initClass inv' cls) :=
  get.bind fun {s s'} hs => by
    rw [hs.length_classes]
    exact initializeUpTo h _ cls

/-- Where no class has the field, it may be that of a primitive. -/
lemma getStatic (cls name desc : String) :
    Agree Eq (getStatic inv cls name desc) (getStatic inv' cls name desc) := by
  refine get.bind fun {s s'} hs => ?_
  rw [hs.staticOwner?_eq]
  cases s.staticOwner? cls name with
  | none =>
    dsimp only
    split
    · exact .classObject _
    · exact .fault _
  | some owner =>
    refine (initClass h owner).seq fun _ => get.bind fun {t t'} ht => ?_
    have hc := ht.class? owner
    generalize t.class? owner = x, t'.class? owner = y at hc
    cases hc with
    | none => exact .zeroOf desc
    | @some c c' hc =>
      rw [Option.bind_some, Option.bind_some, hc.statics_eq]
      cases c.statics.lookup name with
      | some v => exact .pure rfl
      | none => exact .zeroOf desc

lemma putStatic (cls name : String) (v : Value) :
    Agree Eq (putStatic inv cls name v) (putStatic inv' cls name v) := by
  refine get.bind fun {s s'} hs => ?_
  rw [hs.staticOwner?_eq]
  cases s.staticOwner? cls name with
  | none => exact .fault _
  | some owner =>
    exact (initClass h owner).seq fun _ => .changeClass owner fun _ _ _ => rfl

lemma callStatic (cls name desc : String) (args : List Value) :
    Agree Eq (callStatic inv cls name desc args) (callStatic inv' cls name desc args) :=
  (findStatic cls name desc).bind fun hr => (initClass h cls).seq fun _ => h hr args

/-- The class of the receiver decides which method is called. -/
lemma callVirtual (recv : Value) (name desc : String) (args : List Value) :
    Agree Eq (callVirtual inv recv name desc args) (callVirtual inv' recv name desc args) := by
  refine .ite (.raise_bind _ _) (get.bind fun {s s'} hs => ?_)
  rw [hs.classOf_eq]
  exact (findVirtual _ name desc).bind fun hr => h hr _

end Agree

end Classwright.Machine
