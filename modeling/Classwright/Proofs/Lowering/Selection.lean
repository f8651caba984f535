import Classwright.Proofs.Lowering.Constants
import Classwright.Proofs.Lowering.Nesting
import Classwright.Proofs.Machine.Confinement

/-!
Switches on integers.

A switch evaluates its subject and goes to the arm that lists the value, to the default if there is
no such arm, and behind the switch if there is no default either. From there on, control stays in
that arm until it is behind the switch (`Switch.reaches_arm`).
-/

namespace Classwright.Lowering

open List
open Machine (Image Moves Consumes Keeps insnTable)

variable {env : Env} {σ σ' τ τ' : State} {u : Unit}

/-! ### Dispatch -/

/-- A value that is dispatched on as an `int`: a number of at most its size, or a box of one. -/
def IntSubject (e : Expr) : Prop :=
  ∃ ty p, e.type = .ok ty ∧ unboxed? ty.erase.toTy = some p ∧
    (p = .int ∨ p = .short ∨ p = .byte ∨ p = .char)

/-- Dispatch on an integer evaluates the keys and the subject, and one instruction goes on. -/
lemma dispatch_eq_ok {subject : Operand} {arms : List (Arm × Label)} {default : Label}
    (hint : IntSubject subject.term) (h : dispatch subject arms default env σ = .ok (u, σ')) :
    ∃ cases τ, Keyed (labelKeys arms) cases ∧ subject.as (.prim .int) env σ = .ok ((), τ) ∧
      intSwitch cases default env τ = .ok (u, σ') := by
  obtain ⟨ty, p, hty, hp, hcases⟩ := hint
  obtain ⟨t, τ, ht, h⟩ := bind_eq_ok_iff.1 h
  obtain ⟨htype, rfl⟩ := sound_eq_ok_iff.1 ht
  obtain rfl := Except.ok.inj (hty.symm.trans htype)
  rw [hp] at h
  replace h : intDispatch subject arms default env σ = .ok (u, σ') := by
    rcases hcases with rfl | rfl | rfl | rfl <;> exact h
  obtain ⟨all, τ₁, hkeys, h⟩ := bind_eq_ok_iff.1 h
  obtain ⟨rfl, cases, rfl, hkeyed, -⟩ := intKeys_eq_ok hkeys
  obtain ⟨_, τ, hsub, h⟩ := bind_eq_ok_iff.1 h
  refine ⟨cases, τ, hkeyed, hsub, ?_⟩
  rwa [append_nil, reverse_reverse] at h

section

variable {t : Code} {rows : List ExceptionEntry} {bs : Bytes} {c : CodeAttribute}
  {table : Array (Option Insn)} {live : Nat → Prop} {cases : List (Int × Label)} {default : Label}

/-- With an integer on the stack, the dispatch goes to the label that the cases select. -/
lemma intSwitch_leads (hI : Image t rows c table live) (ht : t.Built)
    (hfin : t.finish = .ok (bs, rows)) (hbounds : ∀ c ∈ cases, -2147483648 ≤ c.1 ∧ c.1 ≤ 2147483647)
    (hdistinct : (cases.map Prod.fst).Nodup) (hdefault : default.id < σ.code.labels.size)
    (hcases : ∀ c ∈ cases, c.2.id < σ.code.labels.size) (hσ : σ.code.size = extent σ.code.items)
    (h : intSwitch cases default env σ = .ok (u, σ')) (hext : σ'.code.Extends t) (v : Int32) :
    σ.code.size < σ'.code.size ∧ ∃ l q, Selects cases default v.toInt l ∧ σ'.code.Referred l ∧
    t.position? l = some q ∧ Consumes c table v σ.code.size q := by
  rcases intSwitch_eq_ok hbounds h with ⟨e, d, hfit, hl, hdisp, hd, rfl⟩ | ⟨rfl, τ, hpop, hgoto⟩
  · have hknown (l : Label) (hmem : l ∈ e.labels) : l.id < σ.code.labels.size := by
      rcases hl l hmem with rfl | ⟨k, hk, rfl⟩
      · exact hdefault
      · exact hcases k hk
    obtain ⟨-, hlt, i, hi, hy, -⟩ := ht.laid.yields_emission hfin hσ hfit hknown hd hext
    obtain ⟨ha, hsel⟩ := hdisp hdistinct _ i hy
    obtain ⟨l, hmem, q, hs, hq, htarget⟩ := hsel v
    refine ⟨hlt, l, q, hs, Code.referred_emission hmem (hknown l hmem) hd, hq, ?_⟩
    rintro f₀ s₀ ⟨r, L, _⟩ s st hrun rfl
    obtain ⟨p, hp, hlive⟩ := hI.visits hrun
    obtain rfl : σ.code.size = p := by simpa using hp
    obtain ⟨-, hfetch⟩ := hI.fetch hi hlive
    rw [← htarget]
    exact .single (.of_step hfetch fun inv => Machine.step_switch ha)
  · obtain rfl := emit_eq_ok hpop
    obtain ⟨d, hd, rfl⟩ := onCode?_eq_ok_iff.1 hgoto
    have hfit : (Emission.plain Action.pop.opcode).Fits := by
      rw [Emission.Fits, Opcode.action?_opcode]
      rfl
    have hknown (l : Label) (hl : l ∈ (Emission.jump Action.goto.opcode default).labels) :
        l.id < (σ.code.emit Action.pop.opcode).labels.size := by
      obtain rfl := mem_singleton.1 hl
      exact hdefault.trans_le (Code.extends_emission hfit (by simp [Emission.labels]) rfl).1.labels
    obtain ⟨hext', -⟩ :=
      Code.extends_emission (e := .jump Action.goto.opcode default) trivial hknown hd
    obtain ⟨hsize, hlt, i, hi, hy, hnext⟩ :=
      ht.laid.yields_emission hfin hσ hfit (by simp [Emission.labels]) rfl (hext'.trans hext)
    obtain ⟨-, hlt', j, hj, ⟨q, hq, hy'⟩, -⟩ :=
      ht.laid.yields_emission (e := .jump Action.goto.opcode default) hfin hsize trivial
        hknown hd hext
    refine ⟨hlt.trans hlt', default, q, .inr ⟨by simp, rfl⟩,
      Code.referred_emission (e := .jump Action.goto.opcode default) mem_cons_self
        (hknown _ mem_cons_self) hd, hq, ?_⟩
    rintro f₀ s₀ ⟨r, L, _⟩ s st hrun rfl
    obtain ⟨p, hp, hlive⟩ := hI.visits hrun
    obtain rfl : σ.code.size = p := by simpa using hp
    have hpop : i.op.action? = some .pop := Insn.action?_of_op (by rw [hy])
    have hgoto : j.op.action? = some .goto := Insn.action?_of_op (by rw [hy'])
    have hpops : Moves c.handlers table (⟨r, L, .int v :: st⟩, σ.code.size, s)
        (⟨r, L, st⟩, (σ.code.emit Action.pop.opcode).size, s) := by
      rw [← hnext]
      exact .of_step (hI.fetch hi hlive).2 fun inv => Machine.step_pop hpop
    obtain ⟨p, hp, hlive'⟩ := hI.visits (hrun.tail hpops.goes)
    obtain rfl : (σ.code.emit Action.pop.opcode).size = p := by simpa using hp
    refine .tail (.single hpops) ?_
    have hto : (q : Int) = j.operand := by rw [hy']
    rw [hto]
    exact .of_step (hI.fetch hj hlive').2 fun inv => Machine.step_goto hgoto

end

section

variable {T : Set Label} {subject : Operand} {arms : List Arm} {default : Option (Lower Unit)}
  (k : Course T env subject arms default σ σ') (hs : subject.Tidy env)

include hs

/-- The keys and the subject of a switch on an integer, and the dispatch. -/
lemma Course.exists_dispatch (hint : IntSubject subject.term) :
    ∃ cases τ τ', Keyed (labelKeys k.labelled) cases ∧
    Lays T (insert k.stop (insert k.other k.labels)) ∅ σ τ ∧
    (∃ start, Lowered env (subject.as (.prim .int)) σ τ (start, τ.code.size)) ∧
    intSwitch cases k.other env τ = .ok ((), τ') ∧ τ'.code = k.dispatched.code ∧
    τ.code.Appends k.dispatched.code := by
  obtain ⟨_, τ₁, -, w₁, h⟩ := k.begins.run_bind (X := ∅) .pushScope (by simp) k.dispatches
  obtain ⟨_, τ₃, hdispatch, hpop⟩ := bind_eq_ok_iff.1 h
  obtain ⟨cases, τ₂, hkeyed, hsub, hswitch⟩ := dispatch_eq_ok hint hdispatch
  have w₂ := w₁.run (X := ∅) (hs.as _) hsub (by simp)
  have hcases (c : Int × Label) (hc : c ∈ cases) : c.2 ∈ insert k.other k.labels := by
    obtain ⟨arm, harm, -⟩ := hkeyed.mem_iff.1 hc
    exact .inr (mem_map.2 ⟨_, harm, rfl⟩)
  obtain ⟨w₃, -⟩ := w₂.within (.intSwitch hkeyed.bounds (Set.mem_insert _ _) hcases) hswitch
    fun l hl => .inr (.inl (.inr hl))
  have hcode : τ₃.code = k.dispatched.code := by
    rw [← modify_eq_ok_iff.1 hpop]
    split <;> rfl
  exact ⟨cases, τ₂, τ₃, hkeyed, w₂, ⟨_, τ₁, τ₂, w₁.keeps, hsub, .refl _, rfl⟩, hswitch, hcode,
    hcode ▸ w₃.appends⟩

/-- Control that comes behind the subject with a number on the stack goes to the label that is
selected. -/
lemma Course.exists_test (harms : ∀ a ∈ arms, Tidy env ∅ a.body)
    (hdef : ∀ b ∈ default, Tidy env ∅ b) (hint : IntSubject subject.term) (hsur : Surrounded σ σ' τ)
    (hσ : σ.code.Built) (hτ : τ.code.Built) {bs : Bytes} {rows : List ExceptionEntry}
    (hfin : τ.code.finish = .ok (bs, rows)) {c : CodeAttribute} {table : Array (Option Insn)}
    {live : Nat → Prop} (hI : Image τ.code rows c table live) :
    ∃ cases test, Keyed (labelKeys k.labelled) cases ∧
    (∃ start, Lowered env (subject.as (.prim .int)) σ σ' (start, test)) ∧
    test < k.dispatched.code.size ∧
    ∀ v : Int32, ∃ l q, Selects cases k.other v.toInt l ∧ k.dispatched.code.Referred l ∧
    τ.code.position? l = some q ∧ Consumes c table v test q := by
  obtain ⟨cases, τ₁, τ₂, hkeyed, w₁, ⟨start, ρ, ρ', hρ, hok, hρ', heq⟩, hswitch, hcode, happ₁⟩ :=
    k.exists_dispatch hs hint
  obtain ⟨happ, happ'⟩ := k.appends hs harms hdef
  obtain ⟨-, -, hsize, -⟩ := Code.finish_eq_ok hfin
  have hkeeps : k.dispatched.code.Extends σ'.code := happ.keeps.trans happ'.keeps
  have hτ₁ : τ₁.code.Built := w₁.built
    ((happ₁.size.trans (happ.size.trans (happ'.size.trans hsur.size_le))).trans hsize) hσ
  have hcases (c : Int × Label) (hc : c ∈ cases) : c.2.id < τ₁.code.labels.size := by
    obtain ⟨arm, harm, -⟩ := hkeyed.mem_iff.1 hc
    exact (w₁.waiting c.2 (.inr (.inr (mem_map.2 ⟨_, harm, rfl⟩)))).2.1
  have hleads := intSwitch_leads hI hτ hfin hkeyed.bounds hkeyed.distinct
    (w₁.waiting _ (.inr (.inl rfl))).2.1 hcases
    hτ₁.laid.size hswitch (hcode ▸ hkeeps.trans hsur.keeps)
  rw [hcode] at hleads
  exact ⟨cases, τ₁.code.size, hkeyed, ⟨start, ρ, ρ', hρ, hok, hρ'.trans (happ₁.keeps.trans hkeeps),
    heq⟩, (hleads 0).1, fun v => (hleads v).2⟩

end

/-! ### Switches -/

lemma term_operand : (e : Expr) → (operand e).term = e
  | .field recv owner name ty => congrArg (Expr.field · owner name ty) (term_operand recv)
  | .property recv owner name ty => congrArg (Expr.property · owner name ty) (term_operand recv)
  | .element array index => congrArg₂ Expr.element (term_operand array) (term_operand index)
  | .same .byValue l r => congrArg₂ (Expr.same .byValue) (term_operand l) (term_operand r)
  | .differ .byValue l r => congrArg₂ (Expr.differ .byValue) (term_operand l) (term_operand r)
  | .same .byIdentity _ _ | .differ .byIdentity _ _ | .absent | .const _ | .localVar
      _ _ | .param _ _
  | .staticField _ _ _ | .this _ | .super _ | .caught _ | .callStatic _ _ | .call _ _ _ | .new _ _ _
  | .newArray _ _ _ | .arrayLit _ _ _ | .cast _ _ | .instanceOf _ _ | .and _ _ | .or _ _ | .isNull _
  | .notNull _ | .isTrue _ | .isFalse _ | .compare _ _ _ | .math _ _ _ | .neg _ | .cond _ _ _ _
  | .select _ _ _ _ | .yielding _ _ | .hash _ | .classOf _ | .length _ => rfl

/-! ### Finished code -/

/-- The code of a finished method, as a run finds it. -/
lemma exists_image {c : CodeAttribute} (hfin : finish env τ = .ok (c, τ'))
    (hsur : Surrounded σ σ' τ) {T : Set Label} (w : Within T ∅ ∅ σ σ') :
    ∃ insns bs rows live, Insn.decodeAll c.code = .ok insns ∧
    Image τ.code rows c (insnTable c.code.length insns) live ∧ τ.code.finish = .ok (bs, rows) ∧
    σ.code.Built ∧ τ.code.Built ∧ τ.code.size ≤ 65535 ∧ τ.maxLocals ≤ c.maxLocals.toNat := by
  obtain ⟨⟨method, a, hf⟩, -⟩ := exists_finished hfin
  obtain ⟨-, -, hsize, -⟩ := Code.finish_eq_ok hf.assembled
  have hσ : σ.code.Built := hsur.built ((w.size_le.trans hsur.size_le).trans hsize)
  have hτ : τ.code.Built := hsur.after.advances.built hsize (w.built (hsur.size_le.trans hsize) hσ)
  obtain ⟨insns, live, hdec, hI⟩ := hf.image hτ.laid
  exact ⟨insns, _, _, live, hdec, hI, hf.assembled, hσ, hτ, hsize, hf.locals⟩

/-! ### Layout -/

/-- Where a switch is in the code: its dispatch, its arms in order, its default and its end. An
extent is from its first offset to the one behind it. -/
structure Layout where
  test : Nat
  arms : List (Nat × Nat)
  other : Nat × Nat
  stop : Nat

namespace Layout

/-- The parts of a switch that is lowered from `σ` to `σ'` are where the layout says. The dispatch
comes behind the code of the subject, which is converted to a type, and each arm ends with a jump
behind the switch. -/
structure Describes (lay : Layout) (ty : Ty) (env : Env) (sw : Switch) (σ σ' : State) : Prop where
  subject : ∃ start, Lowered env ((operand sw.subject).as ty) σ σ' (start, lay.test)
  arms : ∃ stop, σ'.code.position? stop = some lay.stop ∧
    Forall₂ (fun a x => Lowered env (armCode stop a) σ σ' x) sw.arms lay.arms
  other : ∀ body ∈ sw.default, Lowered env (inScope body) σ σ' lay.other
  absent : sw.default = none → lay.other.1 = lay.stop
  ordered : Stretch (lay.test + 1) (lay.arms ++ [lay.other]) lay.stop
  stop : lay.stop = σ'.code.size

/-- The part of a switch that a choice among the arms is for: an arm that is chosen, or the default
if none is. -/
inductive Chosen (lay : Layout) (arms : List Arm) (choice : Arm → Prop) : Nat × Nat → Prop
  | arm {a : Arm} {x : Nat × Nat} (mem : (a, x) ∈ arms.zip lay.arms) (chosen : choice a) :
      Chosen lay arms choice x
  | other (none : ∀ a ∈ arms, ¬ choice a) : Chosen lay arms choice lay.other

variable {lay : Layout} {labelled : List (Arm × Label)} {x : Nat × Nat}
  {P : Label → Nat × Nat → Prop}

/-- The label that is selected for a value is that of its part. -/
lemma Chosen.of_selects {κ : Type} {cases : List (κ × Label)} {other l : Label} {v : κ}
    {values : Arm → List κ} (hmem : ∀ {v l}, (v, l) ∈ cases ↔
    ∃ arm, (arm, l) ∈ labelled ∧ v ∈ values arm) (hdistinct : (cases.map Prod.fst).Nodup)
    (harms : Forall₂ (fun y x => P y.2 x) labelled lay.arms) (hother : P other lay.other)
    (ht : lay.Chosen (labelled.map Prod.fst) (fun a => v ∈ values a) x)
    (hsel : Selects cases other v l) : P l x := by
  cases ht with
  | @arm a _ harm hv =>
    rw [zip_map_left] at harm
    obtain ⟨⟨y, _⟩, hzip, heq⟩ := mem_map.1 harm
    obtain ⟨rfl, rfl⟩ := Prod.mk.inj heq
    have hy : (v, y.2) ∈ cases := hmem.2 ⟨y.1, (of_mem_zip hzip).1, hv⟩
    rcases hsel with hl | ⟨hnone, -⟩
    · obtain ⟨-, rfl⟩ := Prod.mk.inj (inj_on_of_nodup_map hdistinct hl hy rfl)
      exact (forall₂_iff_zip.1 harms).2 hzip
    · exact absurd rfl (hnone _ hy)
  | other hnone =>
    rcases hsel with hl | ⟨-, rfl⟩
    · obtain ⟨a, ha, hv⟩ := hmem.1 hl
      exact absurd hv (hnone a (mem_map_of_mem ha))
    · exact hother

end Layout

section

variable {T : Set Label} {subject : Operand} {arms : List Arm} {other : Option (Lower Unit)}
  (k : Course T env subject arms other σ σ') (hs : subject.Tidy env)
  (harms : ∀ a ∈ arms, Tidy env ∅ a.body) (hdef : ∀ b ∈ other, Tidy env ∅ b)
    (hsur : Surrounded σ σ' τ)
  (hbuilt : τ.code.Built) {bs : Bytes} {rows : List ExceptionEntry}
    (hfin : τ.code.finish = .ok (bs, rows))
  {c : CodeAttribute} {table : Array (Option Insn)} {live : Nat → Prop}
    (hI : Image τ.code rows c table live)

include hs harms hdef hsur hbuilt hfin hI

/-- The arms and the default are laid out behind the dispatch. Control that comes to the label which
is selected for a value comes to the part that is chosen for it, and keeps to that until it is
behind the switch. -/
lemma Course.exists_layout :
    ∃ zs x, Forall₂ (fun a y => Lowered env (armCode k.stop a) σ σ' y) arms zs ∧
    (∀ body ∈ other, Lowered env (inScope body) σ σ' x) ∧ (other = none → x.1 = σ'.code.size) ∧
    Stretch k.dispatched.code.size (zs ++ [x]) σ'.code.size ∧
    ∀ (κ : Type) (cases : List (κ × Label)) (values : Arm → List κ) (test : Nat) (v : κ)
    (y : Nat × Nat) (l : Label) (q : Nat),
    (∀ {v l}, (v, l) ∈ cases ↔ ∃ arm, (arm, l) ∈ k.labelled ∧ v ∈ values arm) →
    (cases.map Prod.fst).Nodup → (⟨test, zs, x, σ'.code.size⟩ : Layout).Chosen arms
    (fun a => v ∈ values a) y → Selects cases k.other v l → k.dispatched.code.Referred l →
    τ.code.position? l = some q → y.1 = q ∧ Keeps c table y σ'.code.size := by
  obtain ⟨-, happ⟩ := k.appends hs harms hdef
  obtain ⟨zs, hparts, hstretch⟩ := k.exists_parts hs harms
  obtain ⟨x, hle, hle', hend, hbody, habsent, hother⟩ :=
    k.exists_other hs harms hdef hsur hbuilt hfin
  refine ⟨zs.map offsets, x, k.forall₂_arms (forall₂_map_right_iff.2 ?_), hbody, habsent,
    hend ▸ hstretch.append hle hle', ?_⟩
  · exact hparts.imp fun y z hz => hz.lowered happ.keeps
  · intro κ cases values test v y l q hmem hdistinct hy hsel href hq
    have hlaid : Forall₂ (fun (y : Arm × Label) z => τ.code.position? y.2 = some (z : Nat × Nat).1 ∧
        (k.dispatched.code.Referred y.2 → τ.code.Confined rows σ'.code.size z)) k.labelled
        (zs.map offsets) :=
      forall₂_map_right_iff.2 (hparts.imp fun y z => k.confined_arm hs harms hdef hsur hbuilt hfin)
    rw [← k.arms_eq] at hy
    obtain ⟨hat, hconf⟩ := hy.of_selects
      (P := fun l z => τ.code.position? l = some z.1 ∧
        (k.dispatched.code.Referred l → τ.code.Confined rows σ'.code.size z)) hmem hdistinct hlaid
        hother hsel
    exact ⟨Option.some.inj (hat.symm.trans hq), hI.keeps (hconf href)⟩

end

/-- Arms for the extremes and for numbers around zero. The second one returns; the others go on
behind. -/
def ratingCases : List StmtCase :=
  [.mk [.const (.int (-2147483648)), .const (.int (-1))]
      (.assign (.param "n" (.prim .int)) (.const (.int 10))),
    .mk [.const (.int 0)] (.ret (.const (.int 20))),
    .mk [.const (.int 3), .const (.int 2147483647)]
      (.assign (.param "n" (.prim .int)) (.const (.int 30)))]

/-- A switch with these arms and a default that returns. -/
def rating : Switch := .stmt (.param "n" (.prim .int)) ratingCases (.ret (.const (.int 7)))

def rate : Method where
  name := "rate"
  modifiers := [.static]
  params := [⟨"n", .prim .int, []⟩]
  ret := .prim .int
  body :=
    [.select (.param "n" (.prim .int)) ratingCases (.ret (.const (.int 7))),
      .ret (.param "n" (.prim .int))]

def rateEnv : Env := .alone "Rates" rate

/-- Keys that are far apart are looked up. -/
lemma toOption_dispatch_rating (b₁ b₂ b₃ : Lower Unit) (l₁ l₂ l₃ default : Label) (σ : State) :
    (dispatch (operand (.param "n" (.prim .int)))
      [(⟨[.const (.int (-2147483648)), .const (.int (-1))], b₁⟩, l₁), (⟨[.const (.int 0)], b₂⟩, l₂),
        (⟨[.const (.int 3), .const (.int 2147483647)], b₃⟩, l₃)] default rateEnv σ).toOption =
      ((operand (.param "n" (.prim .int))).as (.prim .int) rateEnv σ).toOption.bind fun r =>
        (onCode? (·.emitLookup default [-2147483648, -1, 0, 3, 2147483647] [l₁, l₁, l₂, l₃, l₃])
          rateEnv r.2).toOption := by
  have hdispatch (arms : List (Arm × Label)) :
      dispatch (operand (.param "n" (.prim .int))) arms default rateEnv σ =
      intDispatch (operand (.param "n" (.prim .int))) arms default rateEnv σ := rfl
  have hkeys : (intKeys []
      (labelKeys [(⟨[.const (.int (-2147483648)), .const (.int (-1))], b₁⟩, l₁),
      (⟨[.const (.int 0)], b₂⟩, l₂),
      (⟨[.const (.int 3), .const (.int 2147483647)], b₃⟩, l₃)]) rateEnv σ).toOption =
        some ([(2147483647, l₃), (3, l₃), (0, l₂), (-1, l₁), (-2147483648, l₁)], σ) := rfl
  have hsorted : [(-2147483648, l₁), (-1, l₁), (0, l₂), (3, l₃), (2147483647, l₃)].mergeSort
      (fun a b : Int × Label => a.1 ≤ b.1) =
        [(-2147483648, l₁), (-1, l₁), (0, l₂), (3, l₃), (2147483647, l₃)] :=
    mergeSort_of_pairwise (by simp)
  simp only [hdispatch, intDispatch, toOption_bind, hkeys, Option.bind_some]
  congr 1
  funext r
  simp only [intSwitch, reverse_cons, reverse_nil, nil_append, cons_append, hsorted]
  rfl

lemma lower_rate : (lower rateEnv.unit rate .empty).toOption.isSome := by
  have hbody : (methodBody rate rateEnv ((State.bare 1).put {} .empty)).toOption.isSome := by
    rw [methodBody, toOption_bind, rate, statements, toOption_bind, statement, toOption_placed,
      select, toOption_bind]
    simp only [ratingCases, stmtArms, Stmt.isAbsent, Bool.false_eq_true, if_false, mapM_cons,
      mapM_nil, newLabel, toOption_bind, toOption_withCode, toOption_pure, Option.bind_some]
    simp only [inScope, toOption_bind, toOption_dispatch_rating]
    -- The keys are sorted by now; the rest can be evaluated.
    decide +kernel
  rw [toOption_lower, Option.isSome_map]
  exact hbody

end Classwright.Lowering
