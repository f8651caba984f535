import Classwright.Proofs.Integral.Statements

/-!
Integral methods.

A static method over `boolean` and the integral types, once lowered, does in the machine what it
means: it returns the value of a direct evaluation, throws the exception of a division by zero, or
does not end (`lower_implements`).
-/

namespace Classwright.Integral

open Lowering (Env Local Performance Ready Sited Stacked State bindBehind)
open Machine (Routine Session Value)

/-! ### Arguments -/

/-- A parameter of a type of the fragment, with an argument that the type has. -/
def Takes (p : Param) (n : Int) : Prop := ∃ q, p.ty.erase = .prim q ∧ isWhole q ∧ InRange q n

/-- What the machine is given for arguments. -/
def arguments (ps : List Param) (args : List Int) : List Value :=
  ps.zipWith (fun p n => Whole.toValue ⟨p.ty.unboxed, n⟩) args

lemma width_eq {ty : Ty} {q : Prim} (h : ty.erase = .prim q) (hq : isWhole q) (n : Int) :
    (if (Whole.toValue ⟨q, n⟩).isWide then 2 else 1) = ty.width := by
  unfold Ty.width
  rw [h]
  cases q <;> first | rfl | cases hq

lemma not_void {ty : Ty} {q : Prim} (h : ty.erase = .prim q) (hq : isWhole q) :
    ty.isVoid = false := by
  unfold Ty.isVoid
  rw [h]
  cases q <;> first | rfl | cases hq

/-- Arguments are put into the slots of their parameters. -/
lemma placeArgs_bound {ps : List Param} {args : List Int} (h : List.Forall₂ Takes ps args)
    {vs : List Local} {bs : List Binding} {next : Nat} {L : Array Value}
    (hvs : List.Forall₂ (Bound L) vs bs) (hst : Stacked 0 next vs)
    (hfits : (bindBehind (vs, next) ps).2 ≤ L.size) :
    ∃ L', Machine.placeArgs (arguments ps args) next L = some L' ∧ L'.size = L.size ∧
    List.Forall₂ (Bound L') (bindBehind (vs, next) ps).1
    ((ps.zipWith (fun p n => ⟨p.name, p.ty.unboxed, n⟩) args).reverse ++ bs) := by
  induction h generalizing vs bs next L with
  | nil => exact ⟨L, rfl, rfl, hvs⟩
  | @cons p n ps args hp _ ih =>
    obtain ⟨q, hq, hw, hn⟩ := hp
    rw [Lowering.bindBehind_cons] at hfits ⊢
    have hpos := Lowering.width_pos (not_void hq hw)
    have hlt : next < L.size := by
      have := Lowering.le_bindBehind ps (⟨p.name, next, p.ty⟩ :: vs, next + p.ty.width)
      dsimp only at this hfits
      omega
    have hbound : List.Forall₂ (Bound (L.setIfInBounds next (Whole.toValue ⟨q, n⟩)))
        (⟨p.name, next, p.ty⟩ :: vs) (⟨p.name, q, n⟩ :: bs) :=
      .cons ⟨rfl, hq, hw, hn, Array.getElem?_setIfInBounds_self_of_lt hlt⟩
        (forall_bound_set hvs fun v hv => (hst.slot_lt hv).ne)
    obtain ⟨L', hplace, hsize, hall⟩ := ih hbound ⟨Nat.lt_add_of_pos_right hpos, hst⟩
      (by rwa [Array.size_setIfInBounds])
    refine ⟨L', ?_, hsize.trans Array.size_setIfInBounds, ?_⟩
    · rw [arguments, List.zipWith_cons_cons, Machine.placeArgs, if_pos hlt, Scene.unboxed_eq hq,
        width_eq hq hw]
      exact hplace
    · rw [List.zipWith_cons_cons, Scene.unboxed_eq hq, List.reverse_cons, List.append_assoc]
      exact hall

/-! ### Whole runs -/

/-- A constant that the machine comes to is in the pool. -/
lemma not_loads_zero {method : MethodCode} {a : Analysis} {table : Array (Option Insn)}
    {live : Nat → Prop} {insns : List Insn} {p : Nat} {i : Insn}
    (henc : Machine.Enclosure method a table live) (hd : Insn.Decodes 0 method.code insns)
    (hp : method.pool.Coherent) (hl : live p) (hi : Machine.insnAt? table p = some i) :
    ¬ i.Loads 0 := by
  obtain ⟨i', hmem, rfl⟩ := henc.boundary hd hl
  obtain ⟨-, -, hdec⟩ := hd.decode_of_mem hmem
  obtain rfl := Option.some.inj ((henc.fetch hdec hl).symm.trans hi)
  rintro ⟨b, hb, hkind, ho⟩
  obtain ⟨c, f, g, hc, ht⟩ := henc.transfer hdec hl
  obtain ⟨wide, heff⟩ : ∃ wide, i'.effect c = Insn.constantEffect c i' wide := by
    unfold Insn.effect
    rw [hb]
    rcases hkind with rfl | rfl | rfl
    · exact ⟨false, rfl⟩
    · exact ⟨false, rfl⟩
    · exact ⟨true, rfl⟩
  rw [Insn.transfer, heff] at ht
  obtain ⟨⟨_, f'⟩, ht, -⟩ := Except.bind_eq_ok_iff.1 ht
  obtain ⟨e, f'', hres, -⟩ := StateT.bind_eq_ok_iff.1 ht
  have hzero : i'.poolIndex = 0 := by
    unfold Insn.poolIndex
    rw [ho]
    rfl
  rw [hc, hzero] at hres
  cases he : method.pool.entry 0 with
  | ok e => exact hp.entry_zero_ne he
  | error e =>
    rw [he] at hres
    exact absurd hres StateT.throw_ne_ok

/-- A run from the start comes to the result of a method. -/
def Concludes (m : Method) (P : Performance) (k : Nat) : Run (Option Int) → Prop :=
  Comes P k ⟨P.session.locals, [], 0⟩ fun v => Scene.Answers m.returns v ∧
    Ends P ⟨P.session.locals, [], 0⟩ fun s => (.ok (Scene.given m.returns v), s)

/-- Static methods over `boolean` and the integral types. -/
structure IsIntegral (m : Method) : Prop where
  static : m.isStatic
  params : ∀ p ∈ m.params, ∃ q, p.ty.erase = .prim q ∧ isWhole q
  returns : m.returns.isVoid ∨ ∃ q, m.returns.erase = .prim q ∧ isWhole q
  body : ∀ s ∈ m.body, Structured s

/-- On arguments the machine does what a method means, at any depth of calls that it allows and in
any state, given enough fuel: it returns the same value and leaves the state alone, or throws the
exception of a division by zero. If the method does not end, no fuel is enough. -/
structure Implements (r : Routine) (m : Method) (args : List Int) : Prop where
  returns : ∀ {k v}, (result m args k).run = some (.ok v) → Scene.Answers m.returns v ∧
    ∀ depth < Machine.maxDepth, ∀ s, ∃ n, ∀ j ≥ n,
      Machine.invoke j depth r (arguments m.params args) s = (.ok (Scene.given m.returns v), s)
  throws : ∀ {k e}, (result m args k).run = some (.error e) → e = .arithmetic ∧
    ∀ depth < Machine.maxDepth, ∀ s, ∃ n, ∀ j ≥ n,
      Machine.invoke j depth r (arguments m.params args) s = Machine.divisionByZero s
  diverges : (∀ k, (result m args k).run = none) → ∀ depth < Machine.maxDepth, ∀ s n,
    (Machine.invoke n depth r (arguments m.params args) s).1 = .error .fuel

variable {m : Method} {args : List Int}

/-- A method is implemented by a routine whose runs conclude as its evaluations do. -/
lemma implements_of_concludes {r : Routine}
    (h : ∀ depth < Machine.maxDepth, ∃ P : Performance, P.session.routine = r ∧
    P.session.Calls depth (arguments m.params args) ∧ ∀ k, Concludes m P k (result m args k)) :
    Implements r m args := by
  have hstart (P : Performance) (s : Machine.State) : Visits P ⟨P.session.locals, [], 0⟩ s :=
    ⟨_, _, .refl⟩
  constructor
  case returns =>
    intro k v hv
    have hconcl (depth : Nat) (hd : depth < Machine.maxDepth) : Scene.Answers m.returns v ∧
        ∀ s, ∃ n, ∀ j ≥ n,
          Machine.invoke j depth r (arguments m.params args) s =
            (.ok (Scene.given m.returns v), s) := by
      obtain ⟨P, rfl, hcalls, hconcl⟩ := h depth hd
      obtain ⟨hans, hends⟩ : Concludes m P k (some (.ok v)) := hv ▸ hconcl k
      exact ⟨hans, fun s => hcalls.ends (hends s (hstart P s)) rfl⟩
    exact ⟨(hconcl 0 (by decide)).1, fun depth hd => (hconcl depth hd).2⟩
  case throws =>
    intro k e he
    have hconcl (depth : Nat) (hd : depth < Machine.maxDepth) (s : Machine.State) :
        e = .arithmetic ∧ ∃ n, ∀ j ≥ n,
        Machine.invoke j depth r (arguments m.params args) s = Machine.divisionByZero s := by
      obtain ⟨P, rfl, hcalls, hconcl⟩ := h depth hd
      have hthrows : Concludes m P k (some (.error e)) := he ▸ hconcl k
      obtain ⟨rfl, hends⟩ := hthrows s (hstart P s)
      obtain ⟨id, s', hs⟩ := divisionByZero_apply s
      refine ⟨rfl, hcalls.ends hends ?_⟩
      rw [hs]
      rfl
    exact ⟨(hconcl 0 (by decide) {}).1, fun depth hd s => (hconcl depth hd s).2⟩
  case diverges =>
    intro hnone depth hd s
    obtain ⟨P, rfl, hcalls, hconcl⟩ := h depth hd
    refine hcalls.lasts fun k => ?_
    have hlasts : Concludes m P k none := hnone k ▸ hconcl k
    exact hlasts s (hstart P s)

/-- The end of a body is a return, if control comes there. -/
lemma Proceeds.concludes {P : Performance} {k : Nat} {σ : State} {out : Run Flow}
    (hp : Proceeds P k σ ⟨P.session.locals, [], 0⟩ out) (hend : σ.code.reachable →
    P.env.method.returns.isVoid ∧ ∀ L, Ends P ⟨L, [], σ.code.size⟩ fun s => (.ok .null, s)) :
    Concludes P.env.method P k (do
      match ← out with
      | .next _ => return none
      | .returned v => return v) := by
  refine Comes.bind hp fun flow hflow => ?_
  cases flow with
  | returned v => exact hflow
  | next ρ =>
    obtain ⟨hr, L, -, -, hgo⟩ := hflow
    obtain ⟨hvoid, hends⟩ := hend hr
    exact ⟨hvoid, hgo.ends (hends L)⟩

/-- Lowering keeps the meaning of integral methods. A method that can be lowered, with any constants
in the pool before, gives code that decodes, and the machine runs it for the method on all
arguments. -/
theorem lower_implements {u : Lowering.ClassUnit} {m : Method} {pool pool' : Pool}
    {c : CodeAttribute} (hm : IsIntegral m) (hp : pool.Coherent)
    (h : Lowering.lower u m pool = .ok (c, pool')) :
    ∃ insns, Insn.decodeAll c.code = .ok insns ∧
    ∀ r : Routine, r.body = .code c (Machine.insnTable c.code.length insns) → pool'.Extends r.pool →
    ∀ args, List.Forall₂ Takes m.params args → Implements r m args := by
  obtain ⟨env, σ, τ, σ', rfl, hparams, hbody, hend, hfin, rfl⟩ := Lowering.lower_eq_ok h
  have hs : Sited env (State.start env.method pool) :=
    Lowering.sited_start hparams fun p hpm => by
      obtain ⟨q, hq, hw⟩ := hm.params p hpm
      exact not_void hq hw
  have hr : Ready (State.start env.method pool) := Lowering.ready_start hp
  have hexec (S : Session) (k : Nat) : Executes ⟨S, env, τ, []⟩ k _ _ :=
    executes_statements fun s hs => (hm.body s hs).executes hm.returns
  obtain ⟨vs, hvs⟩ :=
    (hexec ⟨c, #[], ⟨"", "", "", .code c #[], pool⟩, #[], fun _ => 0, 0⟩ 0 hs hr hbody).1
  have hdτ := hvs.trans hend.emits.declares
  have hrσ := hvs.ready hr
  have hrτ := hdτ.ready hr
  obtain ⟨⟨method, a, hf⟩, hpool⟩ := Lowering.finish_eq_ok hfin hrτ.coherent
  obtain ⟨insns, live, hdec, henc⟩ := hf.enclosure hrτ.laid
  refine ⟨insns, hdec, fun r hcode hext args hargs => implements_of_concludes fun depth hd => ?_⟩
  have hslots : Lowering.methodSlots env.method = bindBehind ([], 0) env.method.params := by
    rw [Lowering.methodSlots, if_pos hm.static]
    rfl
  have hfits : (bindBehind ([], 0) env.method.params).2 ≤
      (Array.replicate (c.maxLocals.toNat + 1) Value.null).size := by
    rw [← hslots, Array.size_replicate]
    exact (hdτ.grows.trans hf.locals).trans (Nat.le_succ _)
  obtain ⟨L, hplace, hsize, hbound⟩ := placeArgs_bound hargs .nil (Nat.zero_le 0) hfits
  let P : Performance :=
    ⟨⟨c, Machine.insnTable c.code.length insns, r, L, fun _ => 0, depth + 1⟩, env, τ, []⟩
  have hI := hf.image_of hrτ.laid henc
  obtain ⟨-, -, hle, -⟩ := Code.finish_eq_ok hf.assembled
  have hP : Complete P := by
    refine ⟨⟨fun hr => Lowering.fetches_emission hI hf.assembled hr hrτ.laid, hle, hpool.trans hext,
      .inr fun {f p s i} hv hi => ?_⟩, ?_, hf.locals⟩
    · obtain ⟨decoded, -, -, -, -, -, hd, -⟩ := MethodCode.analyzeWithin_eq_ok hf.analysed
      have ⟨f₀, s₀, hrun⟩ := hv
      obtain ⟨q, hq, hlive⟩ := hI.visits hrun
      obtain rfl : p = q := by simpa using hq
      exact not_loads_zero henc hd (hf.pool ▸ hrτ.coherent) hlive (hi _ _ hv)
    · exact hf.unguarded (hdτ.guards.trans rfl)
  refine ⟨P, rfl, ⟨hcode, rfl, hd, hplace⟩, fun k => ?_⟩
  have hag : List.Forall₂ (Bound L) env.params (Store.start env.method args).params := by
    rw [hparams, hslots]
    rwa [List.append_nil] at hbound
  have hrun :=
    (hexec P.session k hs hr hbody).2 hP hend.emits.declares.stays rfl (.start env.method args) L
    (hsize.trans Array.size_replicate) ⟨.nil, hag⟩
  refine Proceeds.concludes (P := P) hrun fun hreach => ?_
  rcases hend with ⟨-, hvoid, hret⟩ | ⟨hnot, -⟩
  · exact ⟨hvoid, fun L => ends_emit hP hrσ (.refl τ) rfl hret fun _ _ _ ha =>
      ⟨_, Machine.step_returnVoid ha⟩⟩
  · rw [hnot] at hreach
    cases hreach

/-- Drops the last digit of a number to a base, and counts it. -/
def dropDigit : Stmt :=
  .block
    [.define "rest" .absent (.math .div (.param "n" (.prim .int)) (.param "base" (.prim .long))),
      .assign (.param "n" (.prim .int)) (.cast (.prim .int) (.localVar "rest" (.prim .long))),
      .assign (.localVar "count" (.prim .int))
        (.math .add (.localVar "count" (.prim .int)) (.const (.int 1)))]

/-- Counts the digits of a number to a base. -/
def digits : Method where
  name := "digits"
  modifiers := [.static]
  params := [⟨"n", .prim .int, []⟩, ⟨"base", .prim .long, []⟩]
  ret := .prim .int
  body :=
    [.define "count" .absent (.const (.int 0)),
      .loop (.compare .ne (.param "n" (.prim .int)) (.const (.int 0))) dropDigit,
      .ret (.localVar "count" (.prim .int))]

lemma structured_dropDigit : Structured dropDigit := by
  have hn : Typed (.param "n" (.prim .int)) .int := .param _ rfl rfl
  have hbase : Typed (.param "base" (.prim .long)) .long := .param _ rfl rfl
  have hcount : Typed (.localVar "count" (.prim .int)) .int := .localVar _ rfl rfl
  have hrest : Typed (.localVar "rest" (.prim .long)) .long := .localVar _ rfl rfl
  have hone : Typed (.const (.int 1)) .int := .number rfl (by decide) (by decide)
  exact .block (List.forall_mem_cons.2 ⟨.define _ (.math hn hbase (by decide)) (.inl rfl),
    List.forall_mem_cons.2 ⟨.assignParam _ _ (.cast hrest rfl rfl), List.forall_mem_cons.2
      ⟨.assignLocal _ _ (.math hcount hone (by decide)), by simp⟩⟩⟩)

lemma isIntegral_digits : IsIntegral digits where
  static := by decide
  params :=
    List.forall_mem_cons.2 ⟨⟨.int, rfl, rfl⟩, List.forall_mem_cons.2 ⟨⟨.long, rfl, rfl⟩, by simp⟩⟩
  returns := .inr ⟨.int, rfl, rfl⟩
  body := by
    have hn : Typed (.param "n" (.prim .int)) .int := .param _ rfl rfl
    have hzero : Typed (.const (.int 0)) .int := .number rfl (by decide) (by decide)
    exact List.forall_mem_cons.2 ⟨.define _ hzero (.inl rfl), List.forall_mem_cons.2
      ⟨.loop (.compare .ne hn hzero) structured_dropDigit, List.forall_mem_cons.2
        ⟨.ret (.localVar _ rfl rfl), by simp⟩⟩⟩

/-- To the base one the digits of a number have no end: a round changes the count only. -/
lemma result_digits_one (k : Nat) : (result digits [1, 1] k).run = none := by
  have hloop (j : Nat) (c : Int) : iterate
      (fun ρ => do return (← value ρ
        (.compare .ne (.param "n" (.prim .int)) (.const (.int 0)))).isTrue)
      (fun ρ => do return leave ρ (← exec k dropDigit ρ)) j
      ⟨[⟨"count", .int, c⟩], [⟨"base", .long, 1⟩, ⟨"n", .int, 1⟩]⟩ = unfinished := by
    induction j generalizing c with
    | zero => rfl
    | succ j ih => exact ih (wrap .int (c + 1))
  have hexec : execs k digits.body (.start digits [1, 1]) = andThen unfinished
      (execs k [.ret (.localVar "count" (.prim .int))]) := by
    rw [← hloop k 0]
    rfl
  rw [result, hexec]
  rfl

theorem lower_implements_digits : ∃ c pool insns,
    Lowering.lower { decl := { ty := { name := "Counter" } } } digits .empty = .ok (c, pool) ∧
    Insn.decodeAll c.code = .ok insns ∧
    ∀ s, let r : Routine :=
        ⟨"Counter", "digits", "(IJ)I", .code c (Machine.insnTable c.code.length insns), pool⟩
      (∃ n, ∀ j ≥ n, Machine.invoke j 0 r [.int 123, .long 10] s = (.ok (.int 3), s)) ∧
      (∃ n, ∀ j ≥ n, Machine.invoke j 0 r [.int 123, .long 0] s = Machine.divisionByZero s) ∧
      ∀ n, (Machine.invoke n 0 r [.int 1, .long 1] s).1 = .error .fuel := by
  have hok : (Lowering.lower { decl := { ty := { name := "Counter" } } } digits
      .empty).toOption.isSome := by
    decide +kernel
  obtain ⟨⟨c, pool⟩, h⟩ := Option.isSome_iff_exists.1 hok
  rw [Except.toOption_eq_some_iff] at h
  obtain ⟨insns, hdec, himp⟩ := lower_implements isIntegral_digits Pool.coherent_empty h
  have hint {n : Int} (h : InRange .int n) : Takes ⟨"n", .prim .int, []⟩ n := ⟨.int, rfl, rfl, h⟩
  have hlong {n : Int} (h : InRange .long n) : Takes ⟨"base", .prim .long, []⟩ n :=
    ⟨.long, rfl, rfl, h⟩
  have hdo (n b : Int) (hn : InRange .int n) (hb : InRange .long b) :=
    himp ⟨"Counter", "digits", "(IJ)I", _, pool⟩ rfl (.refl _) [n, b]
      (.cons (hint hn) (.cons (hlong hb) .nil))
  refine ⟨c, pool, insns, h, hdec, fun s => ⟨?_, ?_, ?_⟩⟩
  · have hrun : (result digits [123, 10] 4).run = some (.ok (some 3)) := by decide +kernel
    exact ((hdo 123 10 (by decide) (by decide)).returns hrun).2 0 (by decide) s
  · have hrun : (result digits [123, 0] 4).run = some (.error .arithmetic) := by decide +kernel
    exact ((hdo 123 0 (by decide) (by decide)).throws hrun).2 0 (by decide) s
  · exact (hdo 1 1 (by decide) (by decide)).diverges result_digits_one 0 (by decide) s

end Classwright.Integral
