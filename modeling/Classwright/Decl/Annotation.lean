import Classwright.Term.Basic

/-!
Annotations: a class and named element values, in the order they were given.
-/

namespace Classwright

mutual

/-- The use of an annotation class. -/
inductive Annotation where
  | mk (ty : ClassTy) (elements : List AnnotationElement)

/-- A named value of an annotation. -/
inductive AnnotationElement where
  | mk (name : String) (value : AnnotationValue)

/-- The value of an element: a constant, a constant of an enumeration, an annotation or a list of
values. -/
inductive AnnotationValue where
  | absent
  | const (c : Constant)
  | enumConst (ty : ClassTy) (name : String)
  | nested (of : Annotation)
  | array (values : List AnnotationValue)

end

instance : Inhabited Annotation := ⟨.mk .object []⟩
instance : Inhabited AnnotationValue := ⟨.absent⟩

/-- The class of an annotation. -/
def Annotation.ty : Annotation → ClassTy
  | .mk ty _ => ty

def Annotation.elements : Annotation → List AnnotationElement
  | .mk _ elements => elements

end Classwright
