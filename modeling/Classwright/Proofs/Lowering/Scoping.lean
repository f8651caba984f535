import Classwright.Proofs.Lowering.Running
import Std.Data.String.ToNat

/-!
Scopes and slots.

A variable is given the next free slot, so that the slots of the variables that are visible go down
from the innermost to the first parameter (`Stacked`). A statement binds variables in the innermost
scope (`Declares`); in a scope of its own it leaves none behind. A name that is made up is not
visible (`freshName_eq_ok`).
-/

namespace Classwright.Lowering

open List

/-! ### Slots -/

/-- Slots that go down, all of them below `top` and none below `base`. -/
def Stacked (base : Nat) : Nat → List Local → Prop
  | top, [] => base ≤ top
  | top, v :: vs => v.slot < top ∧ Stacked base v.slot vs

namespace Stacked

variable {base mid top : Nat} {vs ws : List Local} {v : Local}

lemma mono (h : Stacked base mid vs) (hm : mid ≤ top) : Stacked base top vs := by
  cases vs with
  | nil => exact le_trans h hm
  | cons v vs => exact ⟨h.1.trans_le hm, h.2⟩

lemma append (h : Stacked mid top vs) (h' : Stacked base mid ws) : Stacked base top (vs ++ ws) := by
  induction vs generalizing top with
  | nil => exact h'.mono h
  | cons v vs ih => exact ⟨h.1, ih h.2⟩

lemma slot_lt (h : Stacked base top vs) (hv : v ∈ vs) : v.slot < top := by
  induction vs generalizing top with
  | nil => cases hv
  | cons w vs ih =>
    rcases mem_cons.1 hv with rfl | hv
    · exact h.1
    · exact (ih h.2 hv).trans h.1

lemma pairwise (h : Stacked base top vs) : vs.Pairwise fun v w => w.slot < v.slot := by
  induction vs generalizing top with
  | nil => exact .nil
  | cons v vs ih => exact .cons (fun w hw => h.2.slot_lt hw) (ih h.2)

end Stacked

/-- The variables that are visible, innermost first. -/
def visible (σ : State) : List Local := σ.scopes.flatMap (·.vars)

/-- The variables that a name may stand for: those of the scopes, innermost first, and the
parameters. -/
def held (env : Env) (σ : State) : List Local := visible σ ++ env.params

/-- Their names. -/
def heldNames (env : Env) (σ : State) : List String := (held env σ).map (·.name)

/-- A body is being lowered, outside of blocks with a value and of protected regions. -/
structure Sited (env : Env) (σ : State) : Prop where
  scopes : σ.scopes ≠ []
  slots : Stacked 0 σ.next (visible σ ++ env.params)
  fits : σ.next ≤ σ.maxLocals
  plain : σ.yields = []
  unprotected : σ.regions.opened = []

/-! ### Bindings -/

variable {env : Env} {σ τ σ' : State} {vs ws : List Local} {u : Unit} {ty : Ty} {name stem : String}
  {v : Local} {value : Operand}

lemma foldr_bindInner (vs : List Local) (sc : Scope) (rest : List Scope) :
    vs.foldr bindInner (sc :: rest) = { sc with vars := vs ++ sc.vars } :: rest := by
  induction vs with
  | nil => rfl
  | cons v vs ih => rw [foldr_cons, ih]; rfl

/-- Lowering that adds code and constants, and binds variables in the innermost scope. -/
structure Declares (vs : List Local) (σ σ' : State) : Prop where
  rest : σ' = { σ with
    code := σ'.code
    pool := σ'.pool
    scopes := vs.foldr bindInner σ.scopes
    next := σ'.next
    maxLocals := σ'.maxLocals }
  code : σ.code.Grows σ'.code
  guards : σ'.code.guards = σ.code.guards
  coherent : σ.pool.Coherent → σ'.pool.Coherent
  pool : σ.pool.Coherent → σ.pool.Extends σ'.pool
  slots : Stacked σ.next σ'.next vs
  grows : σ.maxLocals ≤ σ'.maxLocals
  fits : σ.next ≤ σ.maxLocals → σ'.next ≤ σ'.maxLocals

lemma Emits.declares (h : Emits σ σ') : Declares [] σ σ' := by
  have hnext : σ'.next = σ.next := by rw [h.rest]
  have hmax : σ'.maxLocals = σ.maxLocals := by rw [h.rest]
  refine ⟨?_, h.code, h.guards, h.coherent, h.pool, hnext.ge, hmax.ge, fun hf => hmax ▸ hnext ▸ hf⟩
  rw [h.rest]
  rfl

namespace Declares

lemma trans (h : Declares vs σ τ) (h' : Declares ws τ σ') : Declares (ws ++ vs) σ σ' where
  rest := by rw [h'.rest, h.rest, foldr_append]
  code := h.code.trans h'.code
  guards := h'.guards.trans h.guards
  coherent hp := h'.coherent (h.coherent hp)
  pool hp := (h.pool hp).trans (h'.pool (h.coherent hp))
  slots := h'.slots.append h.slots
  grows := h.grows.trans h'.grows
  fits hf := h'.fits (h.fits hf)

variable (h : Declares vs σ σ')

include h

lemma visible_eq (hs : σ.scopes ≠ []) : visible σ' = vs ++ visible σ := by
  rw [h.rest]
  obtain ⟨sc, rest, hsc⟩ := exists_cons_of_ne_nil hs
  simp only [visible, hsc, foldr_bindInner, flatMap_cons, append_assoc]

lemma sited (hs : Sited env σ) : Sited env σ' where
  scopes := by
    obtain ⟨sc, rest, hsc⟩ := exists_cons_of_ne_nil hs.scopes
    rw [h.rest, hsc, foldr_bindInner]
    exact cons_ne_nil _ _
  slots := by
    rw [h.visible_eq hs.scopes, append_assoc]
    exact h.slots.append hs.slots
  fits := h.fits hs.fits
  plain := by rw [h.rest]; exact hs.plain
  unprotected := by rw [h.rest]; exact hs.unprotected

lemma ready (hr : Ready σ) : Ready σ' :=
  ⟨h.code.laid hr.laid, h.coherent hr.coherent⟩

lemma label {l : Label} (hl : l.id < σ.code.labels.size) : l.id < σ'.code.labels.size :=
  hl.trans_le h.code.labels

end Declares

/-! ### Statements -/

/-- The state in a new scope. -/
def State.enter (σ : State) : State := { σ with scopes := { base := σ.next } :: σ.scopes }

lemma Sited.enter (hs : Sited env σ) : Sited env σ.enter :=
  ⟨cons_ne_nil _ _, hs.slots, hs.fits, hs.plain, hs.unprotected⟩

/-- A statement in a scope of its own leaves the variables as they were. -/
lemma inScope_eq_ok {x : Lower Unit}
    (hx : ∀ {u τ}, x env σ.enter = .ok (u, τ) → ∃ vs, Declares vs σ.enter τ) (hs : Sited env σ)
    (h : inScope x env σ = .ok (u, σ')) :
    Declares [] σ σ' ∧ ∃ vs τ, x env σ.enter = .ok ((), τ) ∧ Declares vs σ.enter τ ∧
    σ' = { τ with scopes := σ.scopes, next := σ.next } := by
  obtain ⟨_, σ₁, h₁, h⟩ := bind_eq_ok_iff.1 h
  obtain ⟨_, τ, hτ, hpop⟩ := bind_eq_ok_iff.1 h
  obtain rfl : σ.enter = σ₁ := modify_eq_ok_iff.1 h₁
  obtain ⟨vs, hvs⟩ := hx hτ
  obtain ⟨sc, rest, hsc⟩ := exists_cons_of_ne_nil hs.scopes
  have hscopes : τ.scopes = { vars := vs, base := σ.next } :: sc :: rest := by
    rw [hvs.rest, State.enter, foldr_bindInner, hsc, append_nil]
  obtain rfl : { τ with scopes := σ.scopes, next := σ.next } = σ' := by
    have hpop := modify_eq_ok_iff.1 hpop
    rw [hscopes] at hpop
    rw [← hpop, hsc]
  refine ⟨⟨?_, hvs.code, hvs.guards, hvs.coherent, hvs.pool, le_rfl, hvs.grows, fun hf =>
    hf.trans hvs.grows⟩, vs, τ, hτ, hvs, rfl⟩
  rw [hvs.rest]
  rfl

/-! ### Declarations -/

lemma width_pos (h : ty.isVoid = false) : 0 < ty.width := by
  unfold Ty.isVoid Erased.isVoid at h
  unfold Ty.width Erased.width
  cases he : ty.erase with
  | prim p =>
    rw [he] at h
    cases p <;> first | decide | cases h
  | _ => exact Nat.one_pos

lemma lookup?_eq (name : String) (env : Env) (σ : State) :
    lookup? name env σ = .ok ((held env σ).find? (·.name == name), σ) := by
  refine get_bind_eq_ok_iff.2 ?_
  rw [held, find?_append, visible, find?_flatMap]
  cases σ.scopes.findSome? fun sc => sc.vars.find? (·.name == name) <;> rfl

lemma isSome_find?_held :
    ((held env σ).find? (·.name == name)).isSome ↔ name ∈ heldNames env σ := by
  simp [heldNames]

lemma lookup?_eq_ok {v : Option Local} (h : lookup? name env σ = .ok (v, σ')) : σ = σ' ∧
    v = ((visible σ).find? (·.name == name)).or (env.params.find? (·.name == name)) := by
  rw [lookup?_eq] at h
  cases h
  exact ⟨rfl, find?_append⟩

lemma param?_eq_ok {v : Option Local} (h : param? name env σ = .ok (v, σ')) :
    σ = σ' ∧ v = env.params.find? (·.name == name) := by
  replace h := read_bind_eq_ok_iff.1 h
  exact (pure_eq_ok_iff.1 h).symm.imp id Eq.symm

/-- A condition on which lowering fails. -/
lemma unless_eq_ok {α : Type} {c : Prop} [Decidable c] {e : Stop} {x : Lower α} {r : α × State}
    (h : (if c then (do throw e; x) else x : Lower α) env σ = .ok r) : ¬ c ∧ x env σ = .ok r := by
  split_ifs at h with hc
  · obtain ⟨_, _, h, -⟩ := bind_eq_ok_iff.1 h
    exact absurd h throw_ne_ok
  · exact ⟨hc, h⟩

/-- The state with one more variable, in the next free slots. -/
def State.bound (σ : State) (name : String) (ty : Ty) : State :=
  { σ with
    scopes := bindInner ⟨name, σ.next, ty⟩ σ.scopes
    next := σ.next + ty.width
    maxLocals := max σ.maxLocals (σ.next + ty.width) }

/-- What goes on after a computation that succeeds. -/
lemma bind_eq_of_eq_ok {α β : Type} {x : Lower α} {a : α} (h : x env σ = .ok (a, τ))
    (f : α → Lower β) : (x >>= f) env σ = f a env τ := by
  simp only [bind, ReaderT.bind, StateT.bind, h, Except.bind]

/-- A variable is refused if it is of type `void` or its name is visible, and else bound. -/
lemma declare_eq (name : String) (ty : Ty) (env : Env) (σ : State) : declare name ty env σ =
    if ty.isVoid then .error (.cause none (.voidValue (.localVar name)))
    else if name ∈ heldNames env σ then .error (.cause none (.duplicateName name))
    else .ok (⟨name, σ.next, ty⟩, σ.bound name ty) := by
  unfold declare
  by_cases hvoid : ty.isVoid
  · simp only [hvoid, if_true]
    rfl
  · simp only [hvoid, Bool.false_eq_true, if_false, bind_eq_of_eq_ok (lookup?_eq name env σ),
      isSome_find?_held]
    split_ifs <;> rfl

/-- A variable is bound to the next free slot. -/
lemma declare_eq_ok (h : declare name ty env σ = .ok (v, σ')) :
    v = ⟨name, σ.next, ty⟩ ∧ Declares [v] σ σ' ∧ σ'.code = σ.code ∧ σ.next < σ'.maxLocals := by
  rw [declare_eq] at h
  split_ifs at h with hvoid
  obtain ⟨rfl, rfl⟩ := Prod.mk.inj (Except.ok.inj h)
  have hpos := width_pos (Bool.eq_false_of_not_eq_true hvoid)
  exact ⟨rfl, ⟨rfl, .refl _, rfl, id, fun _ => .refl _, ⟨Nat.lt_add_of_pos_right hpos, le_rfl⟩,
    le_max_left _ _, fun _ => le_max_right _ _⟩, rfl,
    (Nat.lt_add_of_pos_right hpos).trans_le (le_max_right _ _)⟩

/-! ### Made-up names -/

/-- The name that is tried when `n` names were made up before. -/
def freshAt (stem : String) (n : Nat) : String := s!"${stem}{n}"

lemma freshAt_injective (stem : String) : Function.Injective (freshAt stem) := by
  intro n k h
  exact Nat.repr_injective
    (by simpa [freshAt, String.append_assoc, String.append_right_inj] using h)

/-- Either a name is found that is not visible, or all names that were tried are. -/
lemma freshWithin_cases (stem : String) (fuel : Nat) (env : Env) (σ : State) :
    (∃ name n, freshWithin stem fuel env σ = .ok (name, { σ with names := n }) ∧
    name ∉ heldNames env σ) ∨ ∀ i < fuel, freshAt stem (σ.names + i) ∈ heldNames env σ := by
  induction fuel generalizing σ with
  | zero => exact .inr fun i hi => absurd hi (Nat.not_lt_zero i)
  | succ fuel ih =>
    -- Only the number of names changes from one attempt to the next.
    let σ' : State := { σ with names := σ.names + 1 }
    have htry := bind_eq_of_eq_ok (lookup?_eq (freshAt stem σ.names) env σ') fun found =>
      if found.isSome then freshWithin stem fuel else pure (freshAt stem σ.names)
    by_cases htaken : freshAt stem σ.names ∈ heldNames env σ
    · rw [if_pos ((isSome_find?_held (σ := σ')).2 htaken)] at htry
      rcases ih σ' with ⟨name, n, h, hname⟩ | h
      · exact .inl ⟨name, n, htry.trans h, hname⟩
      · refine .inr fun i hi => ?_
        cases i with
        | zero => exact htaken
        | succ i => exact Nat.add_right_comm σ.names 1 i ▸ h i (Nat.lt_of_succ_lt_succ hi)
    · rw [if_neg (mt (isSome_find?_held (σ := σ')).1 htaken)] at htry
      exact .inl ⟨_, _, htry, htaken⟩

/-- A name that is made up is not visible, and all else stays as it is. -/
lemma freshName_eq_ok (stem : String) (env : Env) (σ : State) :
    ∃ name n, freshName stem env σ = .ok (name, { σ with names := n }) ∧
    name ∉ heldNames env σ := by
  have hlength : (σ.scopes.map (·.vars.length)).foldr (· + ·) 0 + env.params.length =
      (heldNames env σ).length := by
    simp [heldNames, held, visible, length_flatMap, sum]
  have hfresh : freshName stem env σ = freshWithin stem ((heldNames env σ).length + 1) env σ := by
    rw [← hlength]
    rfl
  rw [hfresh]
  refine (freshWithin_cases stem _ env σ).resolve_right fun h => ?_
  -- One more name than there are visible ones cannot all be visible.
  let tried := (range ((heldNames env σ).length + 1)).map fun i => freshAt stem (σ.names + i)
  have hnodup : tried.Nodup :=
    nodup_range.map ((freshAt_injective stem).comp (add_right_injective σ.names))
  have hsub : tried ⊆ heldNames env σ := fun s hs => by
    obtain ⟨i, hi, rfl⟩ := mem_map.1 hs
    exact h i (mem_range.1 hi)
  have := (hnodup.subperm hsub).length_le
  simp [tried] at this

/-- A variable with a name of its own is in the next slot. -/
lemma temp_eq_ok (h : temp stem ty env σ = .ok (v, σ')) :
    v.slot = σ.next ∧ v.slot < σ'.maxLocals := by
  obtain ⟨name, τ, hname, h⟩ := bind_eq_ok_iff.1 h
  obtain ⟨name', n, hfresh, -⟩ := freshName_eq_ok stem env σ
  obtain ⟨rfl, rfl⟩ := Prod.mk.inj (Except.ok.inj (hname.symm.trans hfresh))
  obtain ⟨rfl, -, -, hroom⟩ := declare_eq_ok h
  exact ⟨rfl, hroom⟩

/-! ### Definitions -/

/-- The definition of a variable whose type is known. -/
def defineAs (name : String) (value : Operand) (ty : Ty) : Lower Unit := do
  if (← lookup? name).isSome then fail (.duplicateName name)
  value.as ty
  store (← declare name ty)

lemma defineAs_eq_ok (h : defineAs name value ty env σ = .ok (u, σ')) :
    ∃ τ τ' v, value.as ty env σ = .ok ((), τ) ∧ declare name ty env τ = .ok (v, τ') ∧
    store v env τ' = .ok (u, σ') := by
  obtain ⟨found, σ₁, hfound, h⟩ := bind_eq_ok_iff.1 h
  obtain ⟨rfl, -⟩ := lookup?_eq_ok hfound
  obtain ⟨-, h⟩ := unless_eq_ok h
  obtain ⟨_, τ, hτ, h⟩ := bind_eq_ok_iff.1 h
  obtain ⟨v, τ', hv, h⟩ := bind_eq_ok_iff.1 h
  exact ⟨τ, τ', v, hτ, hv, h⟩

/-- A definition with a value has the type that is given, or else that of the value. -/
lemma define_eq_ok (hv : value.term.isAbsent = false)
    (h : define name ty value env σ = .ok (u, σ')) :
    ∃ t, (ty = .absent ∧ value.term.type = .ok t ∨ ty ≠ .absent ∧ t = ty) ∧
    defineAs name value t env σ = .ok (u, σ') := by
  unfold define at h
  simp only [hv, Bool.not_false, if_true] at h
  by_cases hty : ty = .absent
  · subst hty
    obtain ⟨t, σ₁, ht, h⟩ := bind_eq_ok_iff.1 h
    obtain ⟨htype, rfl⟩ := sound_eq_ok_iff.1 ht
    exact ⟨t, .inl ⟨rfl, htype⟩, h⟩
  · have hpure : (pure ty >>= defineAs name value) env σ = .ok (u, σ') := by
      cases ty <;> first | exact absurd rfl hty | exact h
    exact ⟨ty, .inr ⟨hty, rfl⟩, hpure⟩

/-! ### Control -/

lemma newLabel_spec {l : Label} (h : newLabel env σ = .ok (l, σ')) :
    Emits σ σ' ∧ l.id < σ'.code.labels.size ∧ σ'.code.size = σ.code.size ∧
    σ'.code.reachable = σ.code.reachable := by
  refine ⟨newLabel_emits h, newLabel_lt h, size_newLabel h, ?_⟩
  obtain ⟨-, rfl⟩ := newLabel_eq_ok h
  rfl

section

variable {x : Lower Unit} {value : Operand}

lemma reachable_eq_ok_iff {b : Bool} :
    reachable env σ = .ok (b, σ') ↔ σ.code.reachable = b ∧ σ = σ' := by
  refine bind_eq_ok_iff.trans ⟨?_, ?_⟩
  · rintro ⟨τ, τ', hget, h⟩
    obtain ⟨rfl, rfl⟩ := get_eq_ok_iff.1 hget
    exact pure_eq_ok_iff.1 h
  · rintro ⟨rfl, rfl⟩
    exact ⟨σ, σ, rfl, rfl⟩

/-- What is emitted only where control comes to. -/
lemma ifReachable_eq_ok {rest : Lower Unit} (h : (do
      if ← reachable then x
      rest : Lower Unit) env σ = .ok (u, σ')) :
    ∃ τ, (σ.code.reachable ∧ x env σ = .ok ((), τ) ∨ σ.code.reachable = false ∧ σ = τ) ∧
      rest env τ = .ok (u, σ') := by
  obtain ⟨b, τ, hb, h⟩ := bind_eq_ok_iff.1 h
  obtain ⟨hr, rfl⟩ := reachable_eq_ok_iff.1 hb
  cases b with
  | true =>
    obtain ⟨_, τ, hx, h⟩ := bind_eq_ok_iff.1 h
    exact ⟨τ, .inl ⟨hr, hx⟩, h⟩
  | false => exact ⟨σ, .inr ⟨hr, rfl⟩, h⟩

/-- Without open regions nothing is run on the way out. -/
lemma leave_eq_ok (hr : σ.regions.opened = []) (h : leave x env σ = .ok (u, σ')) :
    x env σ = .ok ((), σ') := by
  replace h := get_bind_eq_ok_iff.1 h
  rw [hr] at h
  obtain ⟨_, σ₁, h₁, h⟩ := bind_eq_ok_iff.1 h
  obtain ⟨-, rfl⟩ := pure_eq_ok_iff.1 h₁
  obtain ⟨_, σ₂, h₂, h⟩ := bind_eq_ok_iff.1 h
  obtain rfl : σ = σ₂ := modify_eq_ok_iff.1 h₂
  obtain ⟨_, σ₃, h₃, h⟩ := bind_eq_ok_iff.1 h
  obtain ⟨-, rfl⟩ := pure_eq_ok_iff.1 h
  exact h₃

/-- A return outside of blocks with a value and of protected regions. -/
lemma giveBack_eq_ok (ha : value.term.isAbsent = false →
    ∀ {ty u τ}, value.as ty env σ = .ok (u, τ) →
    Emits σ τ) (hs : Sited env σ) (h : giveBack value env σ = .ok (u, σ')) :
    value.term.isAbsent ∧ env.method.returns.isVoid ∧ emit .returnVoid env σ = .ok ((), σ') ∨
    value.term.isAbsent = false ∧ env.method.returns.isVoid = false ∧
    ∃ τ, value.as env.method.returns env σ = .ok ((), τ) ∧
    emit (.returnValue (kindOf env.method.returns.category)) env τ = .ok (u, σ') := by
  replace h := get_bind_eq_ok_iff.1 h
  replace h := read_bind_eq_ok_iff.1 h
  cases hv : value.term.isAbsent with
  | true =>
    simp only [hs.plain, hv, if_true] at h
    split_ifs at h with hvoid
    · exact .inl ⟨rfl, hvoid, leave_eq_ok hs.unprotected h⟩
    · exact absurd h mismatch_ne_ok
  | false =>
    simp only [hs.plain, hv, Bool.false_eq_true, if_false] at h
    cases hvoid : env.method.returns.isVoid with
    | true =>
      simp only [hvoid, if_true] at h
      obtain ⟨_, _, h, -⟩ := bind_eq_ok_iff.1 h
      exact absurd h mismatch_ne_ok
    | false =>
      simp only [hvoid, Bool.false_eq_true, if_false] at h
      obtain ⟨_, τ, hτ, h⟩ := bind_eq_ok_iff.1 h
      replace h := get_bind_eq_ok_iff.1 h
      have hclean : τ.regions.needCleanup = false := by
        have hsame : τ.regions = σ.regions := by rw [(ha hv hτ).rest]
        rw [Regions.needCleanup, hsame, hs.unprotected]
        rfl
      rw [hclean, if_neg (by decide)] at h
      refine .inr ⟨rfl, rfl, τ, hτ, ?_⟩
      rwa [emitReturn, hvoid] at h

end

end Classwright.Lowering
