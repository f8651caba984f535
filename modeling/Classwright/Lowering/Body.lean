import Classwright.Lowering.Protect
import Classwright.Lowering.Select

/-!
Lowering of method bodies.

`operand` and `statement` go over terms by structural recursion. A cleanup that is inlined elsewhere
is not a part of the statement being lowered; it is lowered through the context with one unit of
fuel less. `lower` gives the code attribute of a method, with its frames.
-/

namespace Classwright.Lowering

/-! ### Statements from their parts -/

/-- A definition evaluates its value before the name is bound. Without a type the variable has that
of the value. -/
def define (name : String) (ty : Ty) (value : Operand) : Lower Unit := do
  let hasValue := !value.term.isAbsent
  let ty ← match ty with
    | .absent => if hasValue then value.type else pure .absent
    | t => pure t
  if (← lookup? name).isSome then fail (.duplicateName name)
  if hasValue then value.as ty
  let l ← declare name ty
  if hasValue then store l

def whenTrue (test : Operand) (body : Lower Unit) : Lower Unit := do
  let skip ← newLabel
  test.jump false skip
  inScope body
  join skip

def choose (test : Operand) (yes no : Lower Unit) : Lower Unit := do
  let other ← newLabel
  let stop ← newLabel
  test.jump false other
  inScope yes
  if ← reachable then branch .goto stop
  join other
  inScope no
  join stop

/-- A loop tests at its end, with a jump to the test before its first round. -/
def loop (test : Operand) (body : Lower Unit) : Lower Unit := do
  let top ← newLabel
  let check ← newLabel
  branch .goto check
  mark top
  inScope body
  mark check
  test.jump true top

/-! ### Terms -/

mutual

def operand : Expr → Operand
  | .absent => ofValue .absent (fail (.unsupported .absentExpr))
  | .const c => constOperand c
  | .localVar name ty => variableOperand (.localVar name ty) (lookup? name) (.localVar name) ty
  | .param name ty => variableOperand (.param name ty) (param? name) (.param name) ty
  | .field recv owner name ty => fieldOperand (operand recv) owner name ty
  | .staticField owner name ty => staticOperand owner name ty
  | .this c => thisOperand c
  | .super c => ofValue (.super c) receiver
  | .caught ty => ofValue (.caught ty) (caughtValue ty)
  | .callStatic m args =>
    ofValue (.callStatic m args) (callStatic m ((operands args).map Operand.as))
  | .call recv m args =>
    ofValue (.call recv m args) (call (operand recv) m ((operands args).map Operand.as))
  | .new c params args =>
    ofValue (.new c params args) (instantiate c params ((operands args).map Operand.as))
  | .newArray of dims size =>
    ofValue (.newArray of dims size) do
      (operand size).as (.prim .int)
      newArray of dims
  | .arrayLit of dims es => ofValue (.arrayLit of dims es) (arrayLit of dims (operands es))
  | .cast target v =>
    ofValue (.cast target v) do
      (operand v).value
      cast (← (operand v).type) target
  | .instanceOf v ty => ofValue (.instanceOf v ty) (instanceValue (operand v) ty)
  | .and l r => ofJump (.and l r) (bothJump true (operand l) (operand r))
  | .or l r => ofJump (.or l r) (bothJump false (operand l) (operand r))
  | .isNull v => ofJump (.isNull v) (nullJump (operand v))
  | .notNull v => ofJump (.notNull v) fun want => nullJump (operand v) (!want)
  | .isTrue v => ofJump (.isTrue v) (operand v).jump
  | .isFalse v => ofJump (.isFalse v) fun want => (operand v).jump (!want)
  | .compare op l r => ofJump (.compare op l r) (compareJump op (operand l) (operand r))
  | .math op l r => ofValue (.math op l r) (mathValue op (operand l) (operand r))
  | .neg v => ofValue (.neg v) (negValue (operand v))
  | .cond test yes no ty =>
    ofValue (.cond test yes no ty) (condValue (operand test) (operand yes) (operand no) ty)
  | .select subject ty cases default =>
    ofValue (.select subject ty cases default) do
      if default.isAbsent then fail (.unsupported .noDefault)
      select (operand subject) (exprArms ty cases) (some ((operand default).as ty))
  | .yielding ty body => ofValue (.yielding ty body) (yieldValue ty (statement body))
  | .same .byValue l r => equalOperand (operand l) (operand r)
  | .differ .byValue l r => differOperand (operand l) (operand r)
  | .same .byIdentity l r =>
    ofJump (.same .byIdentity l r) (compareJump .eq (operand l) (operand r))
  | .differ .byIdentity l r =>
    ofJump (.differ .byIdentity l r) fun want => compareJump .eq (operand l) (operand r) (!want)
  | .hash v => ofValue (.hash v) (hashValue (operand v))
  | .classOf v => ofValue (.classOf v) (classValue (operand v))
  | .property recv owner name ty => propertyOperand (operand recv) owner name ty
  | .element array index => elementOperand (operand array) (operand index)
  | .length array => ofValue (.length array) (lengthValue (operand array))

def operands : List Expr → List Operand
  | [] => []
  | e :: es => operand e :: operands es

def exprArms (ty : Ty) : List ExprCase → List Arm
  | [] => []
  | .mk keys value :: cs => ⟨keys, (operand value).as ty⟩ :: exprArms ty cs

def statement : Stmt → Lower Unit
  | .absent => pure ()
  | .ret v => placed "Return" (giveBack (operand v))
  | .throwing v => placed "Throw" do
      (operand v).as (.cls .throwable)
      emit .throwValue
  | .assign target v => placed "Assign" ((operand target).assign (operand v).as)
  | .define name ty v => placed "Define" (define name ty (operand v))
  | .when test body => placed "If" (whenTrue (operand test) (statement body))
  | .choose test yes no => placed "IfElse" (choose (operand test) (statement yes) (statement no))
  | .loop test body => placed "While" (loop (operand test) (statement body))
  | .select subject cases default => placed "Switch"
      (select (operand subject) (stmtArms cases)
        (if default.isAbsent then none else some (statement default)))
  | .locking monitor body => placed "Synchronized" (lock (operand monitor) (statement body))
  | .protect body cs cleanup => placed "Try"
      (protect (statement body) (clauses cs)
        (if cleanup.isAbsent then none else some (cleanup, statement cleanup)))
  | .block ss => placed "Multi" (statements ss)
  | .eval v => placed "ExprStmt" do
      (operand v).value
      discard (← (operand v).type)

def statements : List Stmt → Lower Unit
  | [] => pure ()
  | s :: ss => do
    statement s
    statements ss

def stmtArms : List StmtCase → List Arm
  | [] => []
  | .mk keys body :: cs => ⟨keys, statement body⟩ :: stmtArms cs

def clauses : List CatchClause → List Clause
  | [] => []
  | .mk exception name body :: cs => ⟨exception, name, statement body⟩ :: clauses cs

end

/-! ### Methods -/

/-- The context of a method; cleanups are inlined in cleanups at most `fuel` deep. -/
def env (u : ClassUnit) (m : Method) : Nat → Env
  | 0 => ⟨u, m, (methodSlots m).1, fun _ => throw .diverges⟩
  | fuel + 1 => ⟨u, m, (methodSlots m).1, fun s => statement s (env u m fuel)⟩

/-- A depth of inlined cleanups that is not reached. -/
def inlineDepth : Nat := 1099511627776

/-- Gives an error of the analysis its place. -/
def analysisStop : AnalysisError → Stop
  | .decode e => if e.message?.isSome then .cause (some "") (.decode e) else .misuse .broken
  | .descriptor e => .cause (some "") (.descriptor e)
  | .frame e => .cause (some "") (.frame e)
  | .misuse m => .misuse m
  | .fuel => .diverges

/-- The attribute of analysed code. -/
def conclude (a : Analysis) (maxLocals : Nat) : Lower CodeAttribute := do
  if 65535 < a.maxStack ∨ 65535 < maxLocals then throw (.cause (some "") .tooLarge)
  let attributes ← if a.frames.isEmpty then pure []
    else (fun a => [a]) <$> pooling (Attribute.stackMap a.initial a.frames)
  return ⟨UInt16.ofNat a.maxStack, UInt16.ofNat maxLocals, a.code, a.handlers, attributes⟩

/-- Resolves the emitted code and computes its frames. -/
def finish : Lower CodeAttribute := do
  let s ← get
  let e ← read
  match s.code.finish with
  | .error err => throw (.cause (some "") (.code err))
  | .ok (code, handlers) =>
    let m : MethodCode := ⟨e.unit.decl.ty.internal, e.method.descriptor, e.method.isStatic,
      e.method.isConstructor, code, handlers, s.pool⟩
    match m.analyze e.unit.hierarchy with
    | .error err => throw (analysisStop err)
    | .ok a => conclude a (max a.maxLocals s.maxLocals)

/-- The body of a method: its statements, and a return at the end of a `void` method. -/
def methodBody (m : Method) : Lower CodeAttribute := do
  statements m.body
  if ← reachable then
    if m.returns.isVoid then emit .returnVoid
    else throw (.cause (some "") (.missingReturn (.method m.returns)))
  finish

/-- Why a method has no code. -/
inductive Failure where
  | error (e : LowerError)
  | misuse (m : Misuse)
  | diverges

/-- The failure of a method of a type. -/
def Stop.failure (u : ClassUnit) (m : Method) : Stop → Failure
  | .cause place c => .error ⟨u.decl.name, m.name ++ m.descriptor, place.getD "", c⟩
  | .misuse e => .misuse e
  | .diverges => .diverges

/-- Lowers a method of a type. Constants are added to the pool. -/
def lower (u : ClassUnit) (m : Method) (pool : Pool) : Except Failure (CodeAttribute × Pool) :=
  match methodBody m (env u m inlineDepth) (State.start m pool) with
  | .ok (code, s) => .ok (code, s.pool)
  | .error e => .error (e.failure u m)

end Classwright.Lowering
