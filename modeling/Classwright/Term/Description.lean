import Classwright.Term.Basic

/-!
Terms as messages show them: a constant as its writer spells it, any other term as its parts in
braces.
-/

namespace Classwright

/-- Parts of a term, in braces. -/
def inBraces (parts : List String) : String := "\x7b" ++ " ".intercalate parts ++ "\x7d"

/-- A list, in brackets. -/
def inBrackets (items : List String) : String := "[" ++ " ".intercalate items ++ "]"

/-- A type inside a term. -/
def Ty.described (t : Ty) : String := t.shownAs "v"

def MethodRef.described (m : MethodRef) : String :=
  inBraces [m.owner.name, m.name, inBrackets (m.params.map Ty.described), m.ret.described]

mutual

def Expr.described : Expr → String
  | .absent => "<nil>"
  | .const c => c.shownAs "v"
  | .localVar name t | .param name t => inBraces [name, t.described]
  | .field r owner name t | .property r owner name t =>
    inBraces [r.described, owner.name, name, t.described]
  | .staticField owner name t => inBraces [owner.name, name, t.described]
  | .this c | .super c => inBraces [c.name]
  | .caught t => inBraces [t.described]
  | .callStatic m args => inBraces [m.described, describedExprs args]
  | .call r m args => inBraces [r.described, m.described, describedExprs args]
  | .new c params args =>
    inBraces [c.name, inBrackets (params.map Ty.described), describedExprs args]
  | .newArray of dims size => inBraces [(Ty.array of dims).described, size.described]
  | .arrayLit of dims es => inBraces [(Ty.array of dims).described, describedExprs es]
  | .cast t v => inBraces [t.described, v.described]
  | .instanceOf v t => inBraces [v.described, t.described]
  | .and l r | .or l r | .same _ l r | .differ _ l r | .element l r =>
    inBraces [l.described, r.described]
  | .isNull v | .notNull v | .isTrue v | .isFalse v | .neg v | .hash v | .classOf v | .length v =>
    inBraces [v.described]
  | .compare op l r => inBraces [op.name, l.described, r.described]
  | .math op l r => inBraces [op.name, l.described, r.described]
  | .cond c a b t => inBraces [c.described, a.described, b.described, t.described]
  | .select s t cases d =>
    inBraces [s.described, t.described, inBrackets (describedExprCases cases), d.described]
  | .yielding t body => inBraces [t.described, body.described]

def describedExprs (es : List Expr) : String := inBrackets (describedEach es)

def describedEach : List Expr → List String
  | [] => []
  | e :: es => e.described :: describedEach es

def describedExprCases : List ExprCase → List String
  | [] => []
  | .mk keys v :: cs => inBraces [describedExprs keys, v.described] :: describedExprCases cs

def Stmt.described : Stmt → String
  | .absent => "<nil>"
  | .ret v | .throwing v | .eval v => inBraces [v.described]
  | .assign t v => inBraces [t.described, v.described]
  | .define name t v => inBraces [inBraces [name, t.described], v.described]
  | .when c s | .loop c s | .locking c s => inBraces [c.described, s.described]
  | .choose c a b => inBraces [c.described, a.described, b.described]
  | .select s cases d =>
    inBraces [s.described, inBrackets (describedStmtCases cases), d.described]
  | .protect b clauses f =>
    inBraces [b.described, inBrackets (describedClauses clauses), f.described]
  | .block ss => inBraces [inBrackets (describedStmts ss)]

def describedStmts : List Stmt → List String
  | [] => []
  | s :: ss => s.described :: describedStmts ss

def describedStmtCases : List StmtCase → List String
  | [] => []
  | .mk keys s :: cs => inBraces [describedExprs keys, s.described] :: describedStmtCases cs

def describedClauses : List CatchClause → List String
  | [] => []
  | .mk c name s :: cs => inBraces [c.name, name, s.described] :: describedClauses cs

end

end Classwright
