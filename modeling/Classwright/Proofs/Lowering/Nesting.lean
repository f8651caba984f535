import Classwright.Proofs.Lowering.Layout
import Classwright.Proofs.Lowering.Finishing
import Classwright.Proofs.Lowering.Terms

/-!
Every term keeps to itself, and the switches within it are lowered in its course.

The rules for operands and statements are put together by induction on terms, for the contexts of a
method: a cleanup that is inlined is lowered in a context with less fuel. In the course of lowering
a term, each switch in it is lowered, however deep it is. So a switch in the body of a method is
surrounded by the code of the method (`exists_surrounded`). For a switch in a clause or a cleanup
this holds unless the statement that the clause or cleanup belongs to protects nothing
(`Switch.Skipped`).
-/

namespace Classwright.Lowering

open List

variable {env : Env} {σ σ' : State} {u : Unit}

/-! ### Switches -/

/-- A switch, as a statement or as an expression. -/
inductive Switch where
  | stmt (subject : Expr) (cases : List StmtCase) (default : Stmt)
  | expr (subject : Expr) (ty : Ty) (cases : List ExprCase) (default : Expr)

namespace Switch

def subject : Switch → Expr
  | stmt subject _ _ | expr subject _ _ _ => subject

def arms : Switch → List Arm
  | stmt _ cases _ => stmtArms cases
  | expr _ ty cases _ => exprArms ty cases

def default : Switch → Option (Lower Unit)
  | stmt _ _ default => if default.isAbsent then none else some (statement default)
  | expr _ ty _ default => some ((operand default).as ty)

def code : Switch → Lower Unit
  | stmt subject cases default => statement (.select subject cases default)
  | expr subject ty cases default => (operand (.select subject ty cases default)).value

variable {sw : Switch}

lemma code_eq_ok (h : sw.code env σ = .ok (u, σ')) :
    select (operand sw.subject) sw.arms sw.default env σ = .ok (u, σ') := by
  cases sw with
  | stmt subject cases default => exact placed_eq_ok_iff.1 h
  | expr subject ty cases default => exact (unless_eq_ok (placed_eq_ok_iff.1 h)).2

end Switch

section

variable (all : Bool)

mutual

/-- The switches of an expression, however deep. Keys are constants. -/
def exprSwitches : Expr → List Switch
  | .absent | .const _ | .localVar _ _ | .param _ _ | .staticField _ _ _ | .this _ | .super
      _ | .caught _ => []
  | .field v _ _ _ | .property v _ _ _ | .newArray _ _ v | .cast _ v | .instanceOf v _ | .isNull
      v | .notNull v
  | .isTrue v | .isFalse v | .neg v | .hash v | .classOf v | .length v => exprSwitches v
  | .and l r | .or l r | .compare _ l r | .math _ l r | .same _ l r | .differ _ l
      r | .element l r =>
    exprSwitches l ++ exprSwitches r
  | .callStatic _ args | .new _ _ args | .arrayLit _ _ args => exprsSwitches args
  | .call recv _ args => exprSwitches recv ++ exprsSwitches args
  | .cond test yes no _ => exprSwitches test ++ (exprSwitches yes ++ exprSwitches no)
  | .select subject ty cases default => .expr subject ty cases default ::
      (exprSwitches subject ++ (exprCaseSwitches cases ++ exprSwitches default))
  | .yielding _ body => stmtSwitches body

def exprsSwitches : List Expr → List Switch
  | [] => []
  | e :: es => exprSwitches e ++ exprsSwitches es

def exprCaseSwitches : List ExprCase → List Switch
  | [] => []
  | .mk _ value :: cs => exprSwitches value ++ exprCaseSwitches cs

/-- The switches of a statement: all of them, or only those that are in no clause and no cleanup. -/
def stmtSwitches : Stmt → List Switch
  | .absent => []
  | .ret v | .throwing v | .define _ _ v | .eval v => exprSwitches v
  | .assign target v => exprSwitches target ++ exprSwitches v
  | .when test body | .loop test body | .locking test body => exprSwitches test ++ stmtSwitches body
  | .choose test yes no => exprSwitches test ++ (stmtSwitches yes ++ stmtSwitches no)
  | .select subject cases default => .stmt subject cases default ::
      (exprSwitches subject ++ (stmtCaseSwitches cases ++ stmtSwitches default))
  | .protect body cs cleanup =>
    stmtSwitches body ++ if all then clauseSwitches cs ++ stmtSwitches cleanup else []
  | .block ss => stmtsSwitches ss

def stmtsSwitches : List Stmt → List Switch
  | [] => []
  | s :: ss => stmtSwitches s ++ stmtsSwitches ss

def stmtCaseSwitches : List StmtCase → List Switch
  | [] => []
  | .mk _ body :: cs => stmtSwitches body ++ stmtCaseSwitches cs

def clauseSwitches : List CatchClause → List Switch
  | [] => []
  | .mk _ _ body :: cs => stmtSwitches body ++ clauseSwitches cs

end

end

variable {all : Bool} {body cleanup : Stmt} {cs : List CatchClause}

lemma mem_protect {sw : Switch} :
    sw ∈ stmtSwitches all (.protect body cs cleanup) ↔ sw ∈ stmtSwitches all body ∨
    (all = true ∧ sw ∈ clauseSwitches all cs) ∨ all = true ∧ sw ∈ stmtSwitches all cleanup := by
  cases all <;> simp [stmtSwitches]

lemma stmtSwitches_of_isAbsent {s : Stmt} (h : s.isAbsent = true) : stmtSwitches all s = [] := by
  cases s with
  | absent => rfl
  | _ => cases h

/-- The cleanup of a protected statement, if it has one. -/
def cleanupOf (cleanup : Stmt) : Option (Stmt × Lower Unit) :=
  if cleanup.isAbsent then none else some (cleanup, statement cleanup)

namespace Switch

/-- A protected statement that has the switch in a clause or in the cleanup is lowered, and a region
of it protects nothing. -/
def Skipped (sw : Switch) (env : Env) (σ σ' : State) : Prop :=
  ∃ body cs cleanup, sw ∈ clauseSwitches true cs ++ stmtSwitches true cleanup ∧
    Idles env (statement body) (clauses cs) (cleanupOf cleanup) σ σ'

/-- A switch is lowered from one state to another. One in a clause or a cleanup may be skipped
instead. -/
def Lowers (sw : Switch) (env : Env) (all : Bool) (σ σ' : State) : Prop :=
  sw.code env σ = .ok ((), σ') ∨ all = true ∧ sw.Skipped env σ σ'

variable {sw : Switch}

lemma Lowers.code_eq_ok (h : sw.Lowers env false σ σ') : sw.code env σ = .ok ((), σ') :=
  h.resolve_right (by simp)

lemma lowers_of_idles (hsw : (all = true ∧ sw ∈ clauseSwitches all cs) ∨ all = true ∧
    sw ∈ stmtSwitches all cleanup)
    (h : Idles env (statement body) (clauses cs) (cleanupOf cleanup) σ σ') :
    sw.Lowers env all σ σ' := by
  rcases hsw with ⟨rfl, hsw⟩ | ⟨rfl, hsw⟩
  · exact .inr ⟨rfl, body, cs, cleanup, mem_append_left _ hsw, h⟩
  · exact .inr ⟨rfl, body, cs, cleanup, mem_append_right _ hsw, h⟩

end Switch

/-! ### Terms -/

/-- A context in which cleanups that are inlined keep to themselves. -/
def Env.Tidy (env : Env) : Prop := ∀ s, Lowering.Tidy env ∅ fun e => e.again s

section

variable (all) (sw : Switch) (h : env.Tidy)

include all sw h

-- The context is used by the recursion only.
set_option linter.unusedSectionVars false in
mutual

lemma embeds_operand :
    (e : Expr) → (operand e).Embeds env (sw.Lowers env all) (sw ∈ exprSwitches all e)
  | .absent => .imp (.ofValue False.elim (.fail _)) not_mem_nil
  | .const c => .imp (.constOperand c) not_mem_nil
  | .localVar name ty => .imp (.variableOperand _ (.lookup? name) _ ty) not_mem_nil
  | .param name ty => .imp (.variableOperand _ (.param? name) _ ty) not_mem_nil
  | .staticField owner name ty => .imp (.staticOperand owner name ty) not_mem_nil
  | .this c | .super c => .imp (.ofStraight _ .receiver) not_mem_nil
  | .caught ty => .imp (.ofStraight _ (.caughtValue ty)) not_mem_nil
  | .field recv owner name ty => (embeds_operand recv).fieldOperand owner name ty
  | .property recv owner name ty => (embeds_operand recv).propertyOperand owner name ty
  | .newArray of dims size => .ofValue (fun _ => rfl)
      (.before ((embeds_operand size).as _) fun _ => .of_straight (.newArray of dims))
  | .cast target v => .ofValue (fun _ => rfl)
      (.before (embeds_operand v).value fun _ => .bind (.type _) fun _ => .of_straight (.cast _ _))
  | .instanceOf v ty => .ofValue (fun _ => rfl) ((embeds_operand v).instanceValue ty)
  | .neg v => .ofValue (fun _ => rfl) (embeds_operand v).negValue
  | .hash v => .ofValue (fun _ => rfl) (embeds_operand v).hashValue
  | .classOf v => .ofValue (fun _ => rfl) (embeds_operand v).classValue
  | .length array => .ofValue (fun _ => rfl) (embeds_operand array).lengthValue
  | .isNull v | .notNull v =>
    .ofJump (fun _ => rfl) fun ht => Operand.Embeds.nullJump ht (embeds_operand v) _
  | .isTrue v | .isFalse v => .ofJump (fun _ => rfl) fun ht => (embeds_operand v).jump ht
  | .and l r => .imp (.ofJump (fun _ => rfl) fun ht =>
    Operand.Embeds.bothJump ht (embeds_operand l) (embeds_operand r) true _) mem_append.1
  | .or l r => .imp (.ofJump (fun _ => rfl) fun ht =>
    Operand.Embeds.bothJump ht (embeds_operand l) (embeds_operand r) false _) mem_append.1
  | .compare op l r => .imp (.ofJump (fun _ => rfl) fun ht =>
    Operand.Embeds.compareJump ht (embeds_operand l) (embeds_operand r) op _) mem_append.1
  | .same .byIdentity l r | .differ .byIdentity l r => .imp (.ofJump (fun _ => rfl) fun ht =>
    Operand.Embeds.compareJump ht (embeds_operand l) (embeds_operand r) .eq _) mem_append.1
  | .same .byValue l r => .imp ((embeds_operand l).equalOperand (embeds_operand r)) mem_append.1
  | .differ .byValue l r => .imp ((embeds_operand l).differOperand (embeds_operand r)) mem_append.1
  | .math op l r =>
    .imp (.ofValue (fun _ => rfl) ((embeds_operand l).mathValue (embeds_operand r) op))
      mem_append.1
  | .element array index =>
    .imp ((embeds_operand array).elementOperand (embeds_operand index)) mem_append.1
  | .callStatic m args => .ofValue (fun _ => rfl)
      (Operand.Embeds.callStatic (.map (embeds_operands args) Operand.Embeds.as) m)
  | .new c params args => .ofValue (fun _ => rfl)
      (Operand.Embeds.instantiate (.map (embeds_operands args) Operand.Embeds.as) c params)
  | .arrayLit of dims es =>
    .ofValue (fun _ => rfl) (Operand.Embeds.arrayLit (embeds_operands es) of dims)
  | .call recv m args => .imp (.ofValue (fun _ => rfl)
      (Operand.Embeds.call (.map (embeds_operands args) Operand.Embeds.as) (embeds_operand recv) m))
      mem_append.1
  | .cond test yes no ty => .ofValue (fun _ => rfl)
      (.imp ((embeds_operand test).condValue (embeds_operand yes) (embeds_operand no) ty)
        (by simp [exprSwitches]))
  | .select subject ty cases default => by
      refine .ofValue (fun _ => rfl)
        (.imp (.self (.orFail (.select (fun _ => (embeds_operand subject).as)
        (embeds_exprArms ty cases) (.cons ((embeds_operand default).as ty) (.nil id) .inl)))
        (q := sw = .expr subject ty cases default) ?_) (by simp [exprSwitches]))
      rintro rfl σ r σ' h
      exact .inl (placed_eq_ok_iff.2 h)
  | .yielding ty body => .ofValue (fun _ => rfl) (.yieldValue ty (embeds_statement body))

lemma embeds_operands : (es : List Expr) →
    Along (Operand.Embeds env (sw.Lowers env all)) (sw ∈ exprsSwitches all es) (operands es)
  | [] => .nil not_mem_nil
  | e :: es => .cons (embeds_operand e) (embeds_operands es) mem_append.1

lemma embeds_exprArms (ty : Ty) : (cs : List ExprCase) →
    Along (fun p a => Embeds env (sw.Lowers env all) p ∅ a.body) (sw ∈ exprCaseSwitches all cs)
    (exprArms ty cs)
  | [] => .nil not_mem_nil
  | .mk _ value :: cs => .cons ((embeds_operand value).as ty) (embeds_exprArms ty cs) mem_append.1

lemma embeds_statement :
    (s : Stmt) → Embeds env (sw.Lowers env all) (sw ∈ stmtSwitches all s) ∅ (statement s)
  | .absent => (Tidy.pure ()).embeds.imp not_mem_nil
  | .ret v => .placed _ (.giveBack h (embeds_operand v))
  | .throwing v => .placed _ (.before ((embeds_operand v).as _) fun _ => .emit rfl)
  | .assign target v =>
    .placed _ (.imp ((embeds_operand target).assign (embeds_operand v).as) mem_append.1)
  | .define name ty v => .placed _ (.define name ty (embeds_operand v))
  | .when test body =>
    .placed _ (.imp (.whenTrue (embeds_operand test) (embeds_statement body)) mem_append.1)
  | .choose test yes no => .placed _ (.imp (.choose (embeds_operand test) (embeds_statement yes)
      (embeds_statement no)) (by simp [stmtSwitches]))
  | .loop test body =>
    .placed _ (.imp (.loop (embeds_operand test) (embeds_statement body)) mem_append.1)
  | .select subject cases default => by
      have hdef : Along (fun p b => Embeds env (sw.Lowers env all) p ∅ b)
          (sw ∈ stmtSwitches all default)
          (if default.isAbsent then none else some (statement default)).toList := by
        cases default with
        | absent => exact .nil not_mem_nil
        | _ => exact .cons (embeds_statement _) (.nil id) .inl
      refine .imp (.self (.placed _ (.select (fun _ => (embeds_operand subject).as)
        (embeds_stmtArms cases) hdef)) (q := sw = .stmt subject cases default) ?_)
        (by simp [stmtSwitches])
      rintro rfl σ r σ' h
      exact .inl h
  | .locking monitor body =>
    .placed _ (.imp (.lock (embeds_operand monitor) (embeds_statement body)) mem_append.1)
  | .protect body cs cleanup => by
      refine .imp (.placed _ (.protect (embeds_statement body)
        ((embeds_clauses cs).weaken And.right) (fun c hc => ?_) (fun hc hs => ?_) fun hsw _ _ =>
        Switch.lowers_of_idles hsw)) mem_protect.1
      · split at hc
        · cases hc
        · obtain rfl := Option.some.inj hc
          exact (embeds_statement cleanup).imp And.right
      · split at hc
        · next habsent => exact not_mem_nil (stmtSwitches_of_isAbsent habsent ▸ hs.2)
        · cases hc
  | .block ss => .placed _ (embeds_statements ss)
  | .eval v =>
    .placed _ (.before (embeds_operand v).value fun _ => .bind (.type _) fun _ => .discard _)

lemma embeds_statements :
    (ss : List Stmt) → Embeds env (sw.Lowers env all) (sw ∈ stmtsSwitches all ss) ∅ (statements ss)
  | [] => (Tidy.pure ()).embeds.imp not_mem_nil
  | s :: ss => .imp (.bind (embeds_statement s) fun _ => embeds_statements ss) mem_append.1

lemma embeds_stmtArms : (cs : List StmtCase) →
    Along (fun p a => Embeds env (sw.Lowers env all) p ∅ a.body) (sw ∈ stmtCaseSwitches all cs)
    (stmtArms cs)
  | [] => .nil not_mem_nil
  | .mk _ body :: cs => .cons (embeds_statement body) (embeds_stmtArms cs) mem_append.1

lemma embeds_clauses : (cs : List CatchClause) →
    Along (fun p c => Embeds env (sw.Lowers env all) p ∅ c.body) (sw ∈ clauseSwitches all cs)
    (clauses cs)
  | [] => .nil not_mem_nil
  | .mk _ _ body :: cs => .cons (embeds_statement body) (embeds_clauses cs) mem_append.1

end

end

lemma tidy_operand (h : env.Tidy) (e : Expr) : (operand e).Tidy env :=
  (embeds_operand true (.stmt .absent [] .absent) h e).tidy

lemma tidy_statement (h : env.Tidy) (s : Stmt) : Tidy env ∅ (statement s) :=
  (embeds_statement true (.stmt .absent [] .absent) h s).tidy

namespace Switch

variable {sw : Switch} (h : env.Tidy)

include h

lemma tidy_arms : ∀ a ∈ sw.arms, Lowering.Tidy env ∅ a.body := by
  cases sw with
  | stmt subject cases default =>
    exact (embeds_stmtArms true (.stmt .absent [] .absent) h cases).forall_mem Embeds.tidy
  | expr subject ty cases default =>
    exact (embeds_exprArms true (.stmt .absent [] .absent) h ty cases).forall_mem Embeds.tidy

lemma tidy_default : ∀ b ∈ sw.default, Lowering.Tidy env ∅ b := by
  intro b hb
  cases sw with
  | stmt subject cases default =>
    dsimp only [Switch.default] at hb
    split at hb
    · cases hb
    · obtain rfl := Option.some.inj hb
      exact tidy_statement h default
  | expr subject ty cases default =>
    obtain rfl := Option.some.inj hb
    exact (tidy_operand h default).as ty

/-- What is lowered for a switch keeps to itself, also if the switch is skipped. -/
lemma Lowers.within (hl : sw.Lowers env all σ σ')
    (hk : ∀ l ∈ ∅ ∪ σ.stops, l.id < σ.code.labels.size) : Within (∅ ∪ σ.stops) ∅ ∅ σ σ' := by
  rcases hl with hl | ⟨-, body, cs, cleanup, -, hl, -⟩
  · cases sw with
    | stmt subject cases default =>
      exact (tidy_statement h (.select subject cases default) _ _ _ hk hl).1
    | expr subject ty cases default =>
      exact ((tidy_operand h (.select subject ty cases default)).value _ _ _ hk hl).1
  · exact (tidy_statement h (.protect body cs cleanup) _ _ _ hk (placed_eq_ok_iff.2 hl)).1

end Switch

lemma tidy_env (unit : ClassUnit) (m : Method) (fuel : Nat) : (Lowering.env unit m fuel).Tidy := by
  induction fuel with
  | zero => exact fun _ _ _ _ _ h => absurd h (by simp [Lowering.env])
  | succ fuel ih => exact tidy_statement ih

/-! ### Methods -/

lemma stops_start (m : Method) (pool : Pool) : (State.start m pool).stops = ∅ := by
  simp [State.stops, State.start]

section

variable {unit : ClassUnit} {m : Method} {pool pool' : Pool} {c : CodeAttribute} {sw : Switch}
  (h : lower unit m pool = .ok (c, pool')) (hsw : sw ∈ stmtsSwitches all m.body)

include h hsw

/-- A switch in the body of a method is lowered amid the code, the constants and the slots of the
method. -/
lemma exists_supplied : ∃ σ σ' τ τ', sw.Lowers (Lowering.env unit m inlineDepth) all σ σ' ∧
    Surrounded σ σ' τ ∧ finish (Lowering.env unit m inlineDepth) τ = .ok (c, τ') ∧ τ'.pool = pool' ∧
    Supplies (State.start m pool) σ ∧ Supplies σ' τ := by
  have henv := tidy_env unit m inlineDepth
  obtain ⟨ρ, τ, τ', hlowered, hclosed, hfin, hpool⟩ := exists_lowered h
  have hstops := stops_start m pool
  have wρ := embeds_statements all sw henv m.body _ _ _ (by simp [hstops]) hlowered
  obtain ⟨σ, σ', hlow, hamid⟩ := wρ.amid hsw
  have hafter : σ'.code.Assembles τ.code ∧ Supplies σ' τ := by
    rcases hclosed with ⟨-, -, hret⟩ | ⟨-, rfl⟩
    · have hret := (wρ.toLays.within (X := ∅) (.emit rfl) hret (by simp)).1
      exact ⟨hamid.after.trans hret.assembles, hamid.supplies.trans hret.supply⟩
    · exact ⟨hamid.after, hamid.supplies⟩
  have w := hlow.within henv fun l hl => hamid.known l (hl.resolve_left (Set.notMem_empty l))
  refine ⟨σ, σ', τ, τ', hlow, ⟨hamid.before, fun l hl => ⟨hamid.known l hl, ?_⟩, hafter.1⟩, hfin,
    hpool, hamid.supplied, hafter.2⟩
  rw [← w.position?_eq (hamid.known l hl)]
  exact hamid.waits (by simp [hstops]) l hl

lemma exists_surrounded : ∃ σ σ' τ τ', sw.Lowers (Lowering.env unit m inlineDepth) all σ σ' ∧
    Surrounded σ σ' τ ∧ finish (Lowering.env unit m inlineDepth) τ = .ok (c, τ') := by
  obtain ⟨σ, σ', τ, τ', hlow, hsur, hfin, -⟩ := exists_supplied h hsw
  exact ⟨σ, σ', τ, τ', hlow, hsur, hfin⟩

lemma exists_provided (hp : pool.Coherent) : ∃ σ σ' τ τ',
    sw.Lowers (Lowering.env unit m inlineDepth) all σ σ' ∧ Provided σ σ' τ ∧
      finish (Lowering.env unit m inlineDepth) τ = .ok (c, τ') ∧ τ'.pool = pool' := by
  obtain ⟨σ, σ', τ, τ', hlow, hsur, hfin, hpool, hbefore, hafter⟩ := exists_supplied h hsw
  exact ⟨σ, σ', τ, τ', hlow, ⟨hsur, hbefore.coherent hp, hafter⟩, hfin, hpool⟩

end

end Classwright.Lowering
