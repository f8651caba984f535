import Classwright.Decl.Builder
import Classwright.Proofs.Lowering.Scoping
import Mathlib.Order.CompletePartialOrder

/-!
Variables share neither names nor slots.

While a method is lowered, scopes are opened and closed, variables are bound and names are made up,
in any order (`ScopeCall`). `Nested` is the invariant that carries all of it: the variables of each
scope, together with those around it, lie one after the other, and end where the scope inside
begins. So a scope that is closed gives back what was there when it was opened, whatever happened
inside (`Balanced.restores`), and the variables that are visible never overlap
(`Ordered.unaliased`).
-/

namespace Classwright.Lowering

/-! ### Calls -/

/-- Something that is done to the variables of a method. -/
inductive ScopeCall where
  | push
  | pop
  | declare (name : String) (ty : Ty)
  | fresh (stem : String)

/-- What a computation leaves; one that fails leaves what was there. -/
def State.left {α : Type} (σ : State) (env : Env) (x : Lower α) : State :=
  match x env σ with
  | .ok (_, σ') => σ'
  | .error _ => σ

def State.call (env : Env) (σ : State) : ScopeCall → State
  | .push => σ.left env pushScope
  | .pop => σ.left env popScope
  | .declare name ty => σ.left env (declare name ty)
  | .fresh stem => σ.left env (freshName stem)

def State.after (env : Env) (σ : State) (cs : List ScopeCall) : State := cs.foldl (State.call env) σ

/-- Calls in which every scope that is opened is closed, and no other. -/
inductive Balanced : List ScopeCall → Prop where
  | nil : Balanced []
  | declare {cs : List ScopeCall} (name : String) (ty : Ty) (h : Balanced cs) :
      Balanced (.declare name ty :: cs)
  | fresh {cs : List ScopeCall} (stem : String) (h : Balanced cs) : Balanced (.fresh stem :: cs)
  | scope {cs ds : List ScopeCall} (h : Balanced cs) (h' : Balanced ds) :
      Balanced (.push :: cs ++ .pop :: ds)

def Local.slots (v : Local) : Set Nat := Set.Ico v.slot (v.slot + v.ty.width)

/-- The slot of the receiver, which has no name. -/
def receiverSlots (m : Method) : Set Nat := if m.isStatic then ∅ else {0}

variable {env : Env} {σ τ : State} {name stem : String} {ty : Ty} {cs : List ScopeCall}
  {first top : Nat} {vs : List Local} {v : Local}

/-! ### One call -/

lemma scopes_bound {sc : Scope} {rest : List Scope} (h : σ.scopes = sc :: rest) :
    (σ.bound name ty).scopes = { sc with vars := ⟨name, σ.next, ty⟩ :: sc.vars } :: rest := by
  rw [State.bound, h]
  rfl

lemma call_push (env : Env) (σ : State) : σ.call env .push = σ.enter := rfl

lemma call_pop {sc : Scope} {rest : List Scope} (h : σ.scopes = sc :: rest) (hrest : rest ≠ [])
    (env : Env) : σ.call env .pop = { σ with scopes := rest, next := sc.base } := by
  obtain ⟨sc', rest, rfl⟩ := List.exists_cons_of_ne_nil hrest
  have hpop : popScope env σ = .ok ((), { σ with scopes := sc' :: rest, next := sc.base }) :=
    modify_eq_ok_iff.2 (by rw [h])
  rw [State.call, State.left, hpop]

/-- The scope of the method stays open. -/
lemma call_pop_singleton {sc : Scope} (h : σ.scopes = [sc]) (env : Env) : σ.call env .pop = σ := by
  have hpop : popScope env σ = .ok ((), σ) := modify_eq_ok_iff.2 (by rw [h])
  rw [State.call, State.left, hpop]

lemma call_declare (name : String) (ty : Ty) (env : Env) (σ : State) :
    σ.call env (.declare name ty) =
    if ty.isVoid ∨ name ∈ heldNames env σ then σ else σ.bound name ty := by
  rw [State.call, State.left, declare_eq]
  split_ifs <;> simp_all

lemma call_fresh (stem : String) (env : Env) (σ : State) :
    ∃ n, σ.call env (.fresh stem) = { σ with names := n } := by
  obtain ⟨name, n, hfresh, -⟩ := freshName_eq_ok stem env σ
  exact ⟨n, by rw [State.call, State.left, hfresh]⟩

lemma after_scope (env : Env) (σ : State) (cs ds : List ScopeCall) :
    σ.after env (.push :: cs ++ .pop :: ds) =
    ((σ.enter.after env cs).call env .pop).after env ds := by
  simp [State.after, call_push]

/-- What is done inside a scope does not change those around it. -/
lemma Balanced.scopes_after (h : Balanced cs) (env : Env) {sc : Scope} {rest : List Scope}
    (hsc : σ.scopes = sc :: rest) :
    ∃ vars, (σ.after env cs).scopes = { sc with vars } :: rest := by
  induction h generalizing σ sc rest with
  | nil => exact ⟨sc.vars, hsc⟩
  | declare name ty _ ih =>
    rw [State.after, List.foldl_cons, call_declare]
    split_ifs
    · exact ih hsc
    · obtain ⟨vars, hvars⟩ := ih (scopes_bound hsc)
      exact ⟨vars, hvars⟩
  | fresh stem _ ih =>
    obtain ⟨n, hn⟩ := call_fresh stem env σ
    rw [State.after, List.foldl_cons, hn]
    exact ih hsc
  | @scope cs ds _ _ ih ih' =>
    obtain ⟨vars, hvars⟩ := ih (σ := σ.enter) rfl
    rw [after_scope, call_pop hvars (by simp [hsc])]
    exact ih' hsc

/-- A scope that is closed gives back the variables and the slots that were there when it was
opened. -/
lemma Balanced.restores (h : Balanced cs) (env : Env) (hs : σ.scopes ≠ []) :
    (σ.after env (.push :: cs ++ [.pop])).scopes = σ.scopes ∧
    (σ.after env (.push :: cs ++ [.pop])).next = σ.next := by
  obtain ⟨vars, hvars⟩ := h.scopes_after env (σ := σ.enter) rfl
  rw [after_scope, call_pop hvars hs]
  exact ⟨rfl, rfl⟩

/-! ### Variables one after the other -/

/-- Variables with names of their own that lie one behind the other, the last one first, from
`first` on and below `top`. -/
structure Apart (first top : Nat) (vs : List Local) : Prop where
  names : (vs.map (·.name)).Nodup
  slots : vs.Pairwise fun v w => w.slot + w.ty.width ≤ v.slot
  above : ∀ v ∈ vs, first ≤ v.slot
  below : ∀ v ∈ vs, v.slot + v.ty.width ≤ top
  room : first ≤ top

namespace Apart

lemma nil (h : first ≤ top) : Apart first top [] := ⟨.nil, .nil, by simp, by simp, h⟩

/-- One more variable, behind the others. -/
lemma cons (h : Apart first top vs) (hname : name ∉ vs.map (·.name)) (ty : Ty) :
    Apart first (top + ty.width) (⟨name, top, ty⟩ :: vs) where
  names := List.nodup_cons.2 ⟨hname, h.names⟩
  slots := .cons h.below h.slots
  above := List.forall_mem_cons.2 ⟨h.room, h.above⟩
  below := List.forall_mem_cons.2 ⟨le_rfl, fun v hv => (h.below v hv).trans (Nat.le_add_right _ _)⟩
  room := h.room.trans (Nat.le_add_right _ _)

/-- The parameters lie behind what is bound before them. -/
lemma bindParams {ps : List Param} (h : Apart first top vs)
    (hnames : (ps.map (·.name) ++ vs.map (·.name)).Nodup) :
    Apart first (ps.foldl (fun r p => (⟨p.name, r.2, p.ty⟩ :: r.1, r.2 + p.ty.width)) (vs, top)).2
    (ps.foldl (fun r p => (⟨p.name, r.2, p.ty⟩ :: r.1, r.2 + p.ty.width)) (vs, top)).1 := by
  induction ps generalizing vs top with
  | nil => exact h
  | cons p ps ih =>
    have hnew : p.name ∉ vs.map (·.name) := fun hp =>
      (List.nodup_cons.1 hnames).1 (List.mem_append_right _ hp)
    exact ih (h.cons hnew p.ty) (List.nodup_middle.2 hnames)

end Apart

/-- Scopes, the innermost first, each of which begins where the variables around it end. -/
def Nested (env : Env) (first : Nat) : Nat → List Scope → Prop
  | _, [] => True
  | next, sc :: rest =>
    Apart first next ((sc :: rest).flatMap (·.vars) ++ env.params) ∧ sc.base ≤ next ∧
      Nested env first sc.base rest

/-- The variables of a method are in order. -/
structure Ordered (env : Env) (first : Nat) (σ : State) : Prop where
  scopes : σ.scopes ≠ []
  nested : Nested env first σ.next σ.scopes
  fits : σ.next ≤ σ.maxLocals

namespace Ordered

lemma apart (h : Ordered env first σ) : Apart first σ.next (held env σ) := by
  obtain ⟨sc, rest, hsc⟩ := List.exists_cons_of_ne_nil h.scopes
  have hnested := h.nested
  rw [hsc] at hnested
  rw [held, visible, hsc]
  exact hnested.1

lemma call (h : Ordered env first σ) (c : ScopeCall) : Ordered env first (σ.call env c) := by
  obtain ⟨sc, rest, hsc⟩ := List.exists_cons_of_ne_nil h.scopes
  have hnested := h.nested
  rw [hsc] at hnested
  cases c with
  | push => exact ⟨List.cons_ne_nil _ _, ⟨h.apart, le_rfl, h.nested⟩, h.fits⟩
  | pop =>
    cases rest with
    | nil => rwa [call_pop_singleton hsc]
    | cons sc' rest =>
      rw [call_pop hsc (List.cons_ne_nil _ _)]
      exact ⟨List.cons_ne_nil _ _, hnested.2.2, hnested.2.1.trans h.fits⟩
  | declare name ty =>
    rw [call_declare]
    split_ifs with hrefused
    · exact h
    · have happart := h.apart.cons (fun hn => hrefused (.inr hn)) ty
      refine ⟨by simp [scopes_bound hsc], ?_, le_max_right _ _⟩
      rw [scopes_bound hsc]
      refine ⟨?_, hnested.2.1.trans (Nat.le_add_right _ _), hnested.2.2⟩
      rw [held, visible, hsc] at happart
      exact happart
  | fresh stem =>
    obtain ⟨n, hn⟩ := call_fresh stem env σ
    rw [hn]
    exact ⟨h.scopes, h.nested, h.fits⟩

lemma after (h : Ordered env first σ) (cs : List ScopeCall) :
    Ordered env first (σ.after env cs) := by
  induction cs generalizing σ with
  | nil => exact h
  | cons c cs ih => exact ih (h.call c)

end Ordered

/-! ### Methods that were built -/

lemma nodup_of_checkParams {method : String} {seen : List String} {ps : List Param} {u : Unit}
    (hseen : seen.Nodup) (h : checkParams method seen ps = .ok u) :
    (ps.map (·.name) ++ seen).Nodup := by
  induction ps generalizing seen with
  | nil => exact hseen
  | cons p ps ih =>
    obtain ⟨_, -, h⟩ := Except.bind_eq_ok_iff.1 h
    obtain ⟨hnew, h⟩ := Except.refuse_eq_ok_iff.1 h
    exact List.nodup_middle.1 (ih (List.nodup_cons.2 ⟨by simpa using hnew, hseen⟩) h)

/-- The parameters of a method that was built have names of their own. -/
lemma nodup_of_build {b : MethodBuilder} {m : Method} (h : b.build = .ok m) :
    (m.params.map (·.name)).Nodup := by
  have hcheck : ∃ u, m.check = .ok u := by
    unfold MethodBuilder.build at h
    split at h
    · cases h
    · split at h
      · next hok =>
        cases h
        exact ⟨_, hok⟩
      · cases h
  obtain ⟨u, hcheck⟩ := hcheck
  have hparams : ∃ u, checkParams m.name [] m.params = .ok u := by
    unfold Method.check at hcheck
    dsimp only at hcheck
    by_cases hctor : m.isConstructor
    · rw [if_pos hctor] at hcheck
      obtain ⟨-, hcheck⟩ := Except.refuse_eq_ok_iff.1 hcheck
      obtain ⟨u, hu, -⟩ := Except.bind_eq_ok_iff.1 hcheck
      exact ⟨u, hu⟩
    · rw [if_neg hctor] at hcheck
      obtain ⟨-, -, hcheck⟩ := Except.bind_eq_ok_iff.1 hcheck
      obtain ⟨u, hu, -⟩ := Except.bind_eq_ok_iff.1 hcheck
      exact ⟨u, hu⟩
  obtain ⟨u, hparams⟩ := hparams
  simpa using nodup_of_checkParams .nil hparams

/-- The first slot behind the receiver. -/
def firstSlot (m : Method) : Nat := if m.isStatic then 0 else 1

/-- Before the body the parameters lie behind the receiver. -/
lemma ordered_start {m : Method} (hnames : (m.params.map (·.name)).Nodup) (unit : ClassUnit)
    (depth : Nat) (pool : Pool) :
    Ordered (Lowering.env unit m depth) (firstSlot m) (State.start m pool) := by
  have hparams : Apart (firstSlot m) (methodSlots m).2 (methodSlots m).1 :=
    (Apart.nil le_rfl).bindParams (by simpa using hnames)
  refine ⟨List.cons_ne_nil _ _, ⟨?_, le_rfl, trivial⟩, le_rfl⟩
  cases depth <;> exact hparams

/-- Variables that share neither names nor slots, and scopes that give back what they took. -/
structure Unaliased (m : Method) (env : Env) (σ : State) : Prop where
  names : (heldNames env σ).Nodup
  slots : (receiverSlots m :: (held env σ).map Local.slots).Pairwise Disjoint
  below : ∀ s ∈ receiverSlots m :: (held env σ).map Local.slots, s ⊆ Set.Iio σ.maxLocals
  /-- A variable is refused exactly if it is of type `void` or its name is visible. -/
  refuses : ∀ name ty, (∃ stop, declare name ty env σ = .error stop) ↔ ty.isVoid ∨
    name ∈ heldNames env σ
  /-- With one that is refused nothing changes. Any other takes the free slots and is found before
  all that were visible. -/
  declares : ∀ name ty, if ty.isVoid ∨ name ∈ heldNames env σ then σ.call env (.declare name ty) = σ
    else ∃ τ, declare name ty env σ = .ok (⟨name, σ.next, ty⟩, τ) ∧
      σ.call env (.declare name ty) = τ ∧
      held env τ = ⟨name, σ.next, ty⟩ :: held env σ ∧ τ.next = σ.next + ty.width
  /-- A name that is made up is not visible. -/
  fresh : ∀ stem, ∃ name τ, freshName stem env σ = .ok (name, τ) ∧ name ∉ heldNames env σ
  /-- A scope that is closed leaves the variables and the free slots that it found. -/
  restores : ∀ cs, Balanced cs → held env (σ.after env (.push :: cs ++ [.pop])) = held env σ ∧
    (σ.after env (.push :: cs ++ [.pop])).next = σ.next

lemma Ordered.unaliased {m : Method} (h : Ordered env (firstSlot m) σ) : Unaliased m env σ := by
  have hapart := h.apart
  have hreceiver : receiverSlots m = Set.Iio (firstSlot m) := by
    unfold receiverSlots firstSlot
    split_ifs <;> ext <;> simp
  refine ⟨hapart.names, ?_, ?_, ?_, ?_, ?_, ?_⟩
  · refine .cons (List.forall_mem_map.2 fun v hv => ?_)
      (List.pairwise_map.2 (hapart.slots.imp fun hle => ?_))
    · rw [hreceiver]
      exact Set.disjoint_left.2 fun x hx hx' =>
        (Nat.lt_of_lt_of_le hx (hapart.above v hv)).not_ge hx'.1
    · exact Set.disjoint_left.2 fun x hx hx' => (hx'.2.trans_le hle).not_ge hx.1
  · refine List.forall_mem_cons.2 ⟨?_, List.forall_mem_map.2 fun v hv x hx => ?_⟩
    · rw [hreceiver]
      exact Set.Iio_subset_Iio (hapart.room.trans h.fits)
    · exact hx.2.trans_le ((hapart.below v hv).trans h.fits)
  · intro name ty
    rw [declare_eq]
    split_ifs <;> simp_all
  · intro name ty
    obtain ⟨sc, rest, hsc⟩ := List.exists_cons_of_ne_nil h.scopes
    split_ifs with hrefused
    · rw [call_declare, if_pos hrefused]
    · obtain ⟨hvoid, hname⟩ := not_or.1 hrefused
      refine ⟨σ.bound name ty, ?_, ?_, ?_, rfl⟩
      · rw [declare_eq, if_neg hvoid, if_neg hname]
      · rw [call_declare, if_neg hrefused]
      · rw [held, held, visible, visible, scopes_bound hsc, hsc]
        rfl
  · intro stem
    obtain ⟨name, n, hfresh, hname⟩ := freshName_eq_ok stem env σ
    exact ⟨name, _, hfresh, hname⟩
  · intro cs hcs
    obtain ⟨hscopes, hnext⟩ := hcs.restores env h.scopes
    exact ⟨by rw [held, visible, hscopes]; rfl, hnext⟩

/-- Whatever is done to the variables of a method that was built, they never overlap. -/
theorem variables_unaliased {b : MethodBuilder} {m : Method} (hm : b.build = .ok m)
    (unit : ClassUnit) (depth : Nat) (pool : Pool) (cs : List ScopeCall) :
    Unaliased m (Lowering.env unit m depth)
      ((State.start m pool).after (Lowering.env unit m depth) cs) :=
  ((ordered_start (nodup_of_build hm) unit depth pool).after cs).unaliased

/-- A constructor with the wide parameters `$` and `__`. A variable is bound in a scope, one with
its name and one of type `void` are refused, the scope is closed, and another variable takes its
slot. -/
theorem variables_unaliased_wide :
    ∃ m, ((MethodBuilder.constructor.param "$" (.prim .long) []).param "__"
        (.prim .double) []).build = .ok m ∧
      Unaliased m (Lowering.env { decl := { ty := .object } } m 0)
        ((State.start m .empty).after (Lowering.env { decl := { ty := .object } } m 0)
          [.push, .declare "x" (.prim .double), .declare "x" (.prim .int),
            .declare "y" (.prim .void), .fresh "x", .pop, .declare "x" (.prim .int)]) := by
  have hparam (m : Method) (name : String) (ty : Ty) (hname : checkIdentifier name = .ok ())
      (hty : ty.isVoid = false)
      (hnew : m.params.any (·.name == name) = false) : (MethodBuilder.mk m none).param name ty [] =
        ⟨{ m with params := m.params ++ [⟨name, ty, []⟩] }, none⟩ := by
    simp [MethodBuilder.param, MethodBuilder.step, requireName, hname, hty, hnew, Except.mapError,
      bind, Except.bind, pure, Except.pure]
  -- The names stay variables in these steps: the check of a name, if it is evaluated, searches the
  -- table of letters.
  have hbuild (m : Method) (hctor : m.isConstructor = true) (hvoid : m.returns.isVoid = true)
      (habstract : m.isAbstract = false) (hparams : checkParams m.name [] m.params = .ok ()) :
      (MethodBuilder.mk m none).build = .ok m := by
    simp [MethodBuilder.build, Method.check, hctor, hvoid, habstract, hparams, bind, Except.bind,
      pure, Except.pure]
  have hparams (p q : Param) (hp : checkIdentifier p.name = .ok ())
      (hq : checkIdentifier q.name = .ok ())
      (hne : q.name ≠ p.name) : checkParams constructorName [] [p, q] = .ok () := by
    simp [checkParams, requireName, hp, hq, hne, Except.mapError, bind, Except.bind]
  have hdollar : checkIdentifier "$" = .ok () := by
    simp [checkIdentifier, isNameStart, reservedWords]
  have hunder : checkIdentifier "__" = .ok () := by
    simp [checkIdentifier, isNameStart, isNamePart, reservedWords]
  have hm := hbuild {
      name := constructorName, ret := .prim .void,
      params := [⟨"$", .prim .long, []⟩, ⟨"__", .prim .double, []⟩] }
    rfl rfl rfl (hparams _ _ hdollar hunder (by decide))
  rw [MethodBuilder.constructor, hparam _ _ _ hdollar rfl rfl, hparam _ _ _ hunder rfl rfl]
  exact ⟨_, hm, variables_unaliased hm _ _ _ _⟩

end Classwright.Lowering
