import Classwright.Proofs.Conditions.Branching

/-!
Conditions in a method that is run.

A run of a finished method that comes to the code of a condition makes the calls of the condition,
from left to right and no more than it takes to decide. Then it is at the label exactly if the
condition is as wanted, and behind the code otherwise (`condition_decides_branch`).
-/

namespace Classwright.Lowering

open Machine (Image Recorded Value insnTable)

variable {env : Env} {σ σ' τ τ' : State} {c : CodeAttribute} {m : Method}

namespace Performance

variable {P : Performance}

/-- What is run is the code of a method, with the constants that the code names. -/
structure Executes (P : Performance) : Prop where
  env : ∃ unit m n, P.env = Lowering.env unit m n
  finished : ∃ τ, finish P.env P.lowered = .ok (P.session.attr, τ)
  decoded : ∃ insns, Insn.decodeAll P.session.attr.code = .ok insns ∧
    P.session.table = insnTable P.session.attr.code.length insns
  pool : P.lowered.pool.Extends P.session.routine.pool
  fits : P.session.routine.pool.overflowed = false

lemma Executes.tidy (hP : P.Executes) : P.env.Tidy := by
  obtain ⟨unit, m, n, henv⟩ := hP.env
  rw [henv]
  exact tidy_env unit m n

lemma Executes.staged (hP : P.Executes) (hpro : Provided σ σ' P.lowered) {T : Set Label}
    (w : Within T ∅ ∅ σ σ') : P.Staged := by
  obtain ⟨τ, hfin⟩ := hP.finished
  obtain ⟨insns, hdec, htable⟩ := hP.decoded
  obtain ⟨insns', bs, rows, live, hdec', hI, hassembled, -, hbuilt, hsize, -⟩ :=
    exists_image hfin hpro.toSurrounded w
  obtain rfl : insns = insns' := Except.ok.inj (hdec.symm.trans hdec')
  rw [← htable] at hI
  exact ⟨(fetches_emission hI hassembled · hbuilt.laid), hsize, hP.pool, .inl hP.fits⟩

end Performance

lemma Provided.standing {scopes : List Scope} (h : Provided σ σ' τ) (hscopes : σ.scopes = scopes) :
    Standing scopes σ where
  scopes := hscopes
  stops l hl := (h.stops l hl).1
  ready hsize := ⟨(h.built hsize).laid, h.coherent⟩

lemma Provided.stays (h : Provided σ σ' τ) : Stays σ' τ := ⟨⟨h.keeps, h.supplies⟩, h.size_le⟩

/-! ### The start of a method -/

/-- A value that is made from a branch, at the start of a method. The branch is at the start,
too. -/
lemma exists_provided_jump {e : Expr} (henv : env.Tidy)
    (hvalue : materialize (operand e).jump env (State.start m .empty) = .ok ((), σ'))
    (h : Grows σ' τ) : ∃ no ρ ρ', no.id < ρ.code.labels.size ∧
      (operand e).jump false no env ρ = .ok ((), ρ') ∧ Provided ρ ρ' τ ∧
      ρ.scopes = (State.start m .empty).scopes ∧ ρ.code.size = 0 := by
  obtain ⟨no, ρ₁, hno, hvalue⟩ := bind_eq_ok_iff.1 hvalue
  obtain ⟨stop, ρ, hstop, hvalue⟩ := bind_eq_ok_iff.1 hvalue
  obtain ⟨_, ρ', hjump, hrest⟩ := bind_eq_ok_iff.1 hvalue
  obtain ⟨w₁, -⟩ := (Lays.refl (X := ∅) (by simp [stops_start])).newLabel hno
  obtain ⟨w, hne⟩ := w₁.newLabel hstop
  have hlt := (w.waiting no (by simp)).2.1
  have hg := Grows.of_lays w
  have hstops : ρ.stops = ∅ := by rw [State.stops_eq hg.yields, stops_start]
  -- The two values are laid out behind the branch.
  have w : Laid (fun a b => ρ = a ∧ ρ' = b) True (∅ ∪ (State.start m .empty).stops)
      (insert stop (insert no ∅)) ∅ (State.start m .empty) ρ' :=
    ⟨w.run ((tidy_operand henv e).jump (Set.mem_singleton no)) hjump (by simp), fun _ =>
      ⟨ρ, ρ', ⟨rfl, rfl⟩, hg.code, by simp [hstops], by simp [hstops], .refl _, hg.supply, .refl _⟩⟩
  obtain ⟨_, _, w, hrest⟩ := w.next_bind (.emit rfl) hrest
  obtain ⟨_, _, w, hrest⟩ := w.run_bind (.branch (Set.mem_singleton stop)) (by simp) hrest
  obtain ⟨_, w, hrest⟩ := w.join_bind (by simp) hrest
  obtain ⟨_, _, w, hrest⟩ := w.next_bind (.emit rfl) hrest
  obtain ⟨_, _, ⟨rfl, rfl⟩, ha⟩ := (w.join (by grind) hrest).amid trivial
  have hpro : Provided ρ ρ' τ :=
    ⟨⟨hg.code, by simp [hstops], ha.after.trans h.code⟩, hg.supply.coherent Pool.coherent_empty,
      ha.supplies.trans h.supply⟩
  have hc := ((newLabel_emits hno).trans (newLabel_emits hstop)).continues
  refine ⟨no, ρ, ρ', hlt, hjump, hpro, hc.scopes, ?_⟩
  rw [size_newLabel hstop, size_newLabel hno]
  rfl

/-! ### A method with two questions -/

/-- A call of a method without parameters. -/
def asking (name : String) : Expr := .callStatic ⟨{ name := "Asks" }, name, [], .prim .boolean⟩ []

/-- Two questions, of which the second is asked if the answer to the first is yes. -/
def asked : Expr := .and (asking "first") (.isFalse (asking "second"))

lemma composed_asked {known : Expr → Prop} : Conditions.Composed known asked := by
  have hspelled (name : String) :
      (MethodRef.mk { name := "Asks" } name [] (.prim .boolean)).Spelled :=
    ⟨by simp, by simp [MethodRef.returns, Ty.erase, Erased.Spelled]⟩
  exact .and (.callStatic (hspelled _) (by simp)) (.isFalse (.callStatic (hspelled _) (by simp)))

/-- A method with these questions. -/
def asks : Method where
  name := "asks"
  modifiers := [.static]
  ret := .prim .boolean
  body := [.ret asked]

def asksEnv : Env := .alone "Asks" asks

/-- The pool of the method with its first constants. -/
def asksPool (n : Nat) : Pool :=
  .ofEntries ([.utf8 "Asks", .cls 1, .utf8 "first", .utf8 "()Z", .nameAndType 3 4, .method 2 5,
    .utf8 "second", .nameAndType 7 4, .method 2 8].take n)

lemma asksPool_adds : Pool.method "Asks" "first" "()Z" false (asksPool 0) = (6, asksPool 6) ∧
    Pool.method "Asks" "second" "()Z" false (asksPool 6) = (9, asksPool 9) := by
  refine ⟨?_, ?_⟩ <;>
    simp [Pool.method, Pool.cls, Pool.nameAndType, Pool.utf8, Pool.add, Pool.ofEntries, asksPool,
      bind, StateT.bind, Std.HashMap.getElem?_insert, -getElem?_pos, Pool.count, Entry.slots,
      Entry.isWide, Pool.limit]

lemma toOption_asking {name : String} {σ : State} {c : Code} {p q : Pool} {i : UInt16} (want : Bool)
    (l : Label) (h : Pool.method "Asks" name "()Z" false p = (i, q)) :
    ((operand (asking name)).jump want l asksEnv (σ.put c p)).toOption =
      ((c.emitShort Action.invokeStatic.opcode i).emitJump
        (Action.ifZero (if want then .ne else .eq)).opcode l).toOption.map fun c =>
        ((), σ.put c q) := by
  have hargs : (pushArgs [] [] asksEnv (σ.put c p)).toOption = some ((), σ.put c p) := rfl
  have hmethod : Pool.method (ClassTy.internal { name := "Asks" }) name
      (MethodRef.descriptor ⟨{ name := "Asks" }, name, [], .prim .boolean⟩)
      (asksEnv.unit.isInterface { name := "Asks" }) p = (i, q) := by
    rw [← h]
    congr 1
  have htype (c : Code) : (sound (asking name).type asksEnv (σ.put c q)).toOption =
      some (.prim .boolean, σ.put c q) := rfl
  have hcoerce (c : Code) :
      (coerce (.prim .boolean) (.prim .boolean) asksEnv (σ.put c q)).toOption =
      some ((), σ.put c q) := rfl
  rw [asking] at htype ⊢
  simp only [operand, ofValue, operands, List.map_nil, jumpOnValue, callStatic, invoke, emitShort,
    testInt, branch, toOption_placed, toOption_bind, toOption_read, toOption_pooling,
    toOption_onCode, toOption_onCode?, hargs, hmethod, htype, hcoerce, Option.bind_some]

/-- The value of the condition, with a return behind it. -/
lemma exists_asked : ∃ σ' τ τ' c, materialize (operand asked).jump asksEnv
    (State.start asks .empty) = .ok ((), σ') ∧ emit (.returnValue .int) asksEnv σ' = .ok ((), τ) ∧
    finish asksEnv τ = .ok (c, τ') ∧ τ.pool.overflowed = false := by
  obtain ⟨hfirst, hsecond⟩ := asksPool_adds
  have hok : (materialize (operand asked).jump asksEnv
      ((State.bare 0).put {} (asksPool 0))).toOption.any fun r => (finish asksEnv
        { r.2 with code := r.2.code.emit (Action.returnValue .int).opcode }).toOption.isSome &&
        !r.2.pool.overflowed := by
    simp only [materialize, asked, operand, ofJump, bothJump, newLabel, emit, branch, join,
      toOption_placed, toOption_bind, toOption_withCode, toOption_onCode, toOption_onCode?,
      toOption_asking false _ hfirst, toOption_asking true _ hsecond, Bool.false_eq_true, if_false,
      Bool.not_true, Bool.not_false, Option.bind_some, Option.bind_map, Option.bind_assoc,
      Function.comp_def]
    -- The constants are known by now; only code is left to evaluate.
    decide +kernel
  obtain ⟨⟨_, σ'⟩, hvalue, hok⟩ := (Option.any_eq_true ..).1 hok
  obtain ⟨hfin, hfits⟩ := Bool.and_eq_true_iff.1 hok
  obtain ⟨⟨c, τ'⟩, hfin⟩ := Option.isSome_iff_exists.1 hfin
  exact ⟨σ', _, τ', c, Except.toOption_eq_some_iff.1 hvalue, rfl,
    Except.toOption_eq_some_iff.1 hfin, by simpa using hfits⟩

/-! ### Branches -/

/-- **Branches on conditions.** Let the condition be composed of constants, variables, static calls,
the boolean operators and comparisons, and of other operands whose code does what is known of them.
A run that comes to its code makes the same calls as its evaluation, in which operands are taken
from left to right and the second part of a conjunction or disjunction is left out if the first one
decides. It then goes to the label if the condition is as wanted and goes on behind the code
otherwise, with the stack and the variables as they were. As a value, the condition is put on top of
the stack. -/
theorem condition_decides_branch {P : Performance} {other : Expr → Recorded Value} {e : Expr}
    (hP : P.Executes) (hpro : Provided σ σ' P.lowered) (hscopes : σ.scopes = P.scopes)
    (he : Conditions.Composed (fun e => P.Performs [] (operand e).value (other e) fun v => [v]) e)
    (st : List Value) :
    (∀ want l, l.id < σ.code.labels.size → (operand e).jump want l P.env σ = .ok ((), σ') →
      P.session.Does σ.code.size st ((P.context other).holds e) fun b =>
        (if b = want then P.lowered.code.position? l else some σ'.code.size, st)) ∧
    (materialize (operand e).jump P.env σ = .ok ((), σ') →
      P.session.Does σ.code.size st ((P.context other).holds e) fun b =>
        (some σ'.code.size, .ofBool b :: st)) := by
  have htidy := tidy_operand hP.tidy e
  have hσ := hpro.standing hscopes
  refine ⟨fun want l hl h => ?_, fun h => ?_⟩
  · have hknown (k : Label) (hk : k ∈ {l} ∪ σ.stops) : k.id < σ.code.labels.size := by
      rcases hk with rfl | hk
      · exact hl
      · exact hσ.stops k hk
    have hstaged := hP.staged hpro (htidy.jump (Set.mem_singleton l) _ _ _ hknown h).1
    refine ((Performance.means_of_composed he).jump want l).session hstaged hP.fits hσ
      (by simpa using hl) h hpro.stays fun b _ he => ?_
    subst he
    split <;> rfl
  · have hknown (k : Label) (hk : k ∈ ∅ ∪ σ.stops) : k.id < σ.code.labels.size :=
      hσ.stops k (hk.resolve_left (Set.notMem_empty k))
    have hstaged := hP.staged hpro (Tidy.materialize htidy.jump _ _ _ hknown h).1
    have hvalue :=
      (Performance.puts_materialize ((Performance.means_of_composed he).jump false)).of_fmap
    refine hvalue.session hstaged hP.fits hσ (by simp) h hpro.stays fun b e he => ?_
    rw [he.1, he.2]
    rfl

theorem condition_decides_branch_asked : ∃ (P : Performance) (σ σ' ρ ρ' : State) (no : Label),
    P.Executes ∧ Provided σ σ' P.lowered ∧ σ.scopes = P.scopes ∧ Provided ρ ρ' P.lowered ∧
    ρ.scopes = P.scopes ∧
    Conditions.Composed (fun e => P.Performs [] (operand e).value (pure .null) fun v => [v]) asked ∧
    no.id < ρ.code.labels.size ∧ (operand asked).jump false no P.env ρ = .ok ((), ρ') ∧
    materialize (operand asked).jump P.env σ = .ok ((), σ') ∧
    (∀ s, Machine.Visited P.session.attr P.session.table (P.session.frame [], ρ.code.size, s)) ∧
    P.session.Does ρ.code.size [] ((P.context fun _ => pure .null).holds asked) (fun b =>
      (if b = false then P.lowered.code.position? no else some ρ'.code.size, [])) ∧
    P.session.Does σ.code.size [] ((P.context fun _ => pure .null).holds asked) (fun b =>
      (some σ'.code.size, [.ofBool b])) := by
  obtain ⟨σ', τ, τ', c, hvalue, hreturn, hfin, hfits⟩ := exists_asked
  have henv : asksEnv.Tidy := tidy_env asksEnv.unit asks inlineDepth
  have hmaterialize : Tidy asksEnv ∅ (materialize (operand asked).jump) :=
    .materialize (tidy_operand henv asked).jump
  have hw := hmaterialize _ _ _ (by simp [stops_start]) hvalue
  have hgrows : Grows σ' τ :=
    .of_tidy (X := ∅) (.emit rfl) (by simp [State.stops_eq hw.2, stops_start]) hreturn
  have hpro : Provided (State.start asks .empty) σ' τ :=
    ⟨⟨.refl _, by simp [stops_start], hgrows.code⟩, Pool.coherent_empty, hgrows.supply⟩
  obtain ⟨no, ρ, ρ', hno, hjump, hpro', hscopes, hsize⟩ := exists_provided_jump henv hvalue hgrows
  obtain ⟨insns, -, -, -, hdec, -⟩ := exists_image hfin hpro.toSurrounded hw.1
  let P : Performance := ⟨⟨c, insnTable c.code.length insns,
    ⟨"Asks", "asks", "()Z", .code c (insnTable c.code.length insns), τ.pool⟩, #[], fun _ => 1, 0⟩,
    asksEnv, τ, (State.start asks .empty).scopes⟩
  have hP : P.Executes :=
    ⟨⟨asksEnv.unit, asks, inlineDepth, rfl⟩, ⟨τ', hfin⟩, ⟨insns, hdec, rfl⟩, .refl _, hfits⟩
  refine ⟨P, _, σ', ρ, ρ', no, hP, hpro, rfl, hpro', hscopes, composed_asked, hno, hjump, hvalue,
    fun s => ?_, ?_, ?_⟩
  · rw [hsize]
    exact ⟨_, _, .refl⟩
  · exact (condition_decides_branch hP hpro' hscopes composed_asked []).1 false no hno hjump
  · exact (condition_decides_branch hP hpro rfl composed_asked []).2 hvalue

end Classwright.Lowering
