import Classwright.Decl.Builder
import Classwright.Term.Idiom

/-!
Sample declarations.

Nine small types of the package `demo` that between them use most of what can be declared: control
flow and exceptions, switches, locks, an enumeration, a record, a property, an interface with an
implementation, and a member class.
-/

namespace Classwright.Sample

/-- The package of the samples. -/
def package : String := "demo"

def qualified (simple : String) : String := package ++ "." ++ simple

/-! ### Shorthands -/

def int : Ty := .prim .int
def boolean : Ty := .prim .boolean

def param (name : String) (ty : Ty) : Param := { name, ty }

def staticMethod (name : String) (params : List Param) (ret : Ty) (body : List Stmt) : Method :=
  { name, modifiers := [.pub, .static], params, ret, body }

def instanceMethod (name : String) (ret : Ty) (body : List Stmt) : Method :=
  { name, modifiers := [.pub], ret, body }

def arg (name : String) : Expr := .param name int
def var (name : String) : Expr := .localVar name int
def define (name : String) (value : Expr) : Stmt := .define name int value
def add (l r : Expr) : Expr := .math .add l r
def divide (l r : Expr) : Expr := .math .div l r

/-- A new exception with a message. -/
def exception (cls message : String) : Expr := .new { name := cls } [.string] [.str message]

/-- A clause for divisions by zero. -/
def onZero (body : Stmt) : CatchClause := .mk { name := "java.lang.ArithmeticException" } "" body

/-- A builder for a public declaration of the package, and its type. -/
def declare (kind : ClassKind) (simple : String) (modifiers : Modifiers) : Builder :=
  (Builder.start kind (qualified simple)).modifiers modifiers

def typeOf (kind : ClassKind) (simple : String) : ClassTy := { name := qualified simple, kind }

/-! ### Control flow -/

/-- Conditions, loops, short-circuit evaluation and exceptions. -/
def calculator : Except BuildError Decl :=
  let self := typeOf .ordinary "Calc"
  let counter (name : String) : Field := { name, ty := int, modifiers := [.pub, .static] }
  let touches : Expr := .staticField self "touches" int
  let cleanups : Expr := .staticField self "cleanups" int
  let touch : Expr := .callStatic ⟨self, "touch", [], boolean⟩ []
  let a := param "a" int
  let b := param "b" int
  let k := param "k" int
  let total : Expr := .localVar "total" (.prim .long)
  (declare .ordinary "Calc" [.pub, .final])
    |>.field (counter "touches")
    |>.field (counter "cleanups")
    |>.method (staticMethod "max" [a, b] int [
        .when (.compare .gt (arg "a") (arg "b")) (.ret (arg "a")),
        .ret (arg "b")])
    |>.method (staticMethod "sumTo" [param "n" int] int [
        define "i" (.int 0),
        define "sum" (.int 0),
        .loop (.compare .le (var "i") (arg "n")) (.block [
          .assign (var "sum") (add (var "sum") (var "i")),
          .assign (var "i") (add (var "i") (.int 1))]),
        .ret (var "sum")])
    |>.method (staticMethod "touch" [] boolean [
        .assign touches (add touches (.int 1)),
        .ret (.bool true)])
    |>.method (staticMethod "andFalse" [] boolean [.ret (.and (.bool false) touch)])
    |>.method (staticMethod "orTrue" [] boolean [.ret (.or (.bool true) touch)])
    |>.method (staticMethod "safeDivide" [a, b] int [
        .protect (.ret (divide (arg "a") (arg "b"))) [onZero (.ret (.int (-1)))] .absent])
    |>.method (staticMethod "withCleanup" [param "x" int] int [
        .protect (.ret (divide (.int 100) (arg "x"))) []
          (.assign cleanups (add cleanups (.int 1)))])
    |>.method (staticMethod "escape" [k] int [
        .protect (.block [
            .when (.compare .ne (arg "k") (.int 0))
              (.throwing (exception "java.lang.IllegalStateException" "escape")),
            .ret (divide (.int 100) (arg "k"))])
          [onZero (.ret (.int (-1)))] .absent])
    |>.method (staticMethod "restore" [k] int [
        define "v" (.int 8),
        .protect (.block [
            .when (.compare .ne (arg "k") (.int 0)) (.assign (var "v") (.int 9)),
            .ret (divide (var "v") (.int 0))])
          [onZero (.ret (var "v"))] .absent])
    |>.method (staticMethod "sumLongs" [param "base" (.prim .long), k] (.prim .long) [
        .define "total" (.prim .long) (.param "base" (.prim .long)),
        .assign total (add total (arg "k")),
        .ret total])
    |>.result

/-- Switches on integers and strings; two of the strings have one hash. -/
def numbers : Except BuildError Decl :=
  let s : Expr := .param "s" .string
  (declare .ordinary "Numbers" [.pub])
    |>.method (staticMethod "name" [param "n" int] .string [
        .ret (.select (arg "n") .string
          [.mk [.int 10] (.str "ten"), .mk [.int 20] (.str "twenty")] (.str "other"))])
    |>.method (staticMethod "digit" [param "n" int] int [
        .select (arg "n") ([0, 1, 2, 3, 4].map fun k => .mk [.int k] (.ret (.int (k * k)))) .absent,
        .ret (.int (-1))])
    |>.method (staticMethod "code" [param "s" .string] int [
        .select s [
            .mk [.str "Aa"] (.ret (.int 1)),
            .mk [.str "BB"] (.ret (.int 2)),
            .mk [.str "zebra", .str "zed"] (.ret (.int 3))]
          (.ret (.int 0))])
    |>.result

/-- Leaving a locked block by an exception and by a return. -/
def guard : Except BuildError Decl :=
  let lock : Expr := .param "lock" .object
  (declare .ordinary "Guard" [.pub])
    |>.method (staticMethod "fail" [param "lock" .object] .absent [
        .locking lock (.throwing (exception "java.lang.IllegalStateException" "boom"))])
    |>.method (staticMethod "locked" [param "lock" .object, param "n" int] int [
        .locking lock (.ret (add (arg "n") (.int 1)))])
    |>.result

/-! ### Kinds of declarations -/

/-- An enumeration whose constants carry a number. -/
def color : Except BuildError Decl :=
  let self := typeOf .enumeration "Color"
  let rgb : Expr := .field (.this self) self "rgb" int
  (declare .enumeration "Color" [.pub])
    |>.constant "RED" [.int 0xff0000]
    |>.constant "GREEN" [.int 0x00ff00]
    |>.constant "BLUE" [.int 0x0000ff]
    |>.field { name := "rgb", ty := int, modifiers := [.priv, .final] }
    |>.method {
      name := constructorName, params := [param "rgb" int], body := [.assign rgb (arg "rgb")] }
    |>.method (instanceMethod "rgb" int [.ret rgb])
    |>.method (instanceMethod "isWarm" boolean [
        .ret (.select (.this self) boolean
          [.mk [.enumValue self "RED"] (.bool true)] (.bool false))])
    |>.result

/-- A record with a method. -/
def point : Except BuildError Decl :=
  let self := typeOf .record "Point"
  let own (name : String) : Expr := .field (.this self) self name int
  (declare .record "Point" [.pub])
    |>.component "x" int
    |>.component "y" int
    |>.method (instanceMethod "sum" int [.ret (add (own "x") (own "y"))])
    |>.result

/-- A property and an initialized field. -/
def counter : Except BuildError Decl :=
  let self := typeOf .ordinary "Counter"
  let count : Expr := .property (.this self) self "count" int
  (declare .ordinary "Counter" [.pub])
    |>.property { name := "count", ty := int }
    |>.field { name := "label", ty := .string, modifiers := [.pub], init := .str "counter" }
    |>.method (instanceMethod "increment" int [.assign count (add count (.int 1)), .ret count])
    |>.result

/-- An interface with an abstract and a default method. -/
def shape : Except BuildError Decl := do
  let self := typeOf .interface "Shape"
  let area : Expr := .call (.this self) ⟨self, "area", [], int⟩ []
  -- The parts have types, so that their text is defined.
  let text := (Expr.concat [.str "area=", area]).toOption.getD .absent
  (declare .interface "Shape" [.pub])
    |>.method (instanceMethod "area" int [])
    |>.method (instanceMethod "describe" .string [.ret text])
    |>.result

/-- An implementation of the interface. -/
def square : Except BuildError Decl :=
  let self := typeOf .ordinary "Square"
  let side : Expr := .field (.this self) self "side" int
  (declare .ordinary "Square" [.pub])
    |>.interfaces [.cls (typeOf .interface "Shape")]
    |>.field { name := "side", ty := int, modifiers := [.priv, .final] }
    |>.method { name := constructorName, modifiers := [.pub], params := [param "side" int],
                body := [.assign side (arg "side")] }
    |>.method (instanceMethod "area" int [.ret (.math .mul side side)])
    |>.result

/-- A member class and a call of its method. -/
def outer : Except BuildError Decl := do
  let self := typeOf .ordinary "Outer"
  let v := param "v" int
  let inner ← (Builder.start .ordinary (nestedName self "Inner"))
    |>.modifiers [.pub, .static]
    |>.method (staticMethod "twice" [v] int [.ret (add (arg "v") (arg "v"))])
    |>.result
  (declare .ordinary "Outer" [.pub])
    |>.nest inner
    |>.method (staticMethod "viaInner" [v] int [
        .ret (.callStatic ⟨inner.ty, "twice", [int], int⟩ [arg "v"])])
    |>.result

/-! ### All samples -/

/-- The samples by simple name, in order. -/
def all : List (String × Except BuildError Decl) :=
  [("Calc", calculator), ("Numbers", numbers), ("Guard", guard), ("Color", color), ("Point", point),
    ("Counter", counter), ("Shape", shape), ("Square", square), ("Outer", outer)]

/-- A sample by its simple name. -/
def find? (name : String) : Option (Except BuildError Decl) := all.lookup name

end Classwright.Sample
