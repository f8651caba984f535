import Classwright.Proofs.Machine.Invocations

/-!
Texts at run time.

A text has the hash and the test of equality of the platform, unless a loaded class hides them. Both
are called like any method: the arguments are taken from the stack, and the result is put there
(`step_text`). A call on null throws instead (`step_hash_null`).
-/

namespace Classwright.Machine

variable {inv : Invoke} {i : Insn} {r : Routine} {L : Array Value} {st : List Value} {s : State}
  {name desc : String} {params : List String} {ret owner v : String} {p : Platform}

/-! ### Texts -/

/-- The class of texts is that of the platform. -/
def State.PlainTexts (s : State) : Prop := s.class? "java/lang/String" = none

/-- A method of texts is that of the platform. -/
lemma dispatch_text (hs : s.PlainTexts) (hname : name ≠ "clone")
    (hp : Platform.find? "java/lang/String" name desc = some p) (v : String) :
    dispatch .virtual (.str v) ⟨owner, name, desc, false⟩ s =
      (.ok (.ofPlatform "java/lang/String" name desc p), s) := by
  have hconcrete : s.concrete? "java/lang/String" name desc =
      some (.ofPlatform "java/lang/String" name desc p) := by
    simp [State.concrete?, State.declared?, show s.class? "java/lang/String" = none from hs, hp,
      Routine.ofPlatform, Routine.isAbstract]
  have hvirtual : s.virtual? "java/lang/String" name desc =
      some (.ofPlatform "java/lang/String" name desc p) := by
    simp [State.virtual?, State.chain, State.height, State.chainUpTo, hconcrete]
  show (if name = "clone" ∧ _ then _ else findVirtual "java/lang/String" name desc) s = _
  rw [if_neg fun h => hname h.1]
  show (found (s.virtual? "java/lang/String" name desc) _ : Exec Routine) s = _
  rw [hvirtual]
  rfl

/-- A method of the platform is called on a text. -/
lemma step_text {n depth : Nat} (vs : List Value) {w : Value}
    (ha : i.op.action? = some .invokeVirtual) (hs : s.PlainTexts)
    (href : r.pool.memberAt (poolIndex i.operand) = .ok ⟨owner, name, desc, false⟩)
    (hparse : Descriptor.parse desc = .ok (params, ret)) (hlen : vs.length = params.length)
    (hret : returnsValue desc) (hname : name ≠ "clone")
    (hfind : Platform.find? "java/lang/String" name desc = some p)
    (hrun : runPlatform (invoke n depth) n p (.str v :: vs.reverse) s = (.ok w, s)) :
    step (invoke (n + 1) depth) i ⟨r, L, vs ++ .str v :: st⟩ s =
    ((.ok (.goto i.next), ⟨r, L, w :: st⟩), s) := by
  have hcall : invokeOn (invoke (n + 1) depth) .virtual ⟨owner, name, desc, false⟩
      (.str v) vs.reverse s = (.ok w, s) := by
    show (dispatch .virtual (.str v) _ >>= fun m => invoke (n + 1) depth m (.str v :: vs.reverse))
      s = _
    rw [bind_apply, dispatch_text hs hname hfind v]
    dsimp only
    rw [invoke]
    exact hrun
  have hstep : step (invoke (n + 1) depth) i ⟨r, L, (vs ++ [.str v]) ++ st⟩ s = _ :=
    step_invocation href hparse (by simp [CallKind.arity, hlen]) ha rfl hret
  simpa [Invocation.run, hcall] using hstep

lemma parse_hash : Descriptor.parse "()I" = .ok ([], "I") := by decide

lemma find?_hash : Platform.find? "java/lang/String" "hashCode" "()I" = some .textHash := by decide

lemma returnsValue_hash : returnsValue "()I" := by decide +kernel

lemma parse_equals : Descriptor.parse "(Ljava/lang/Object;)Z" =
    .ok (["Ljava/lang/Object;"], "Z") := by
  decide

lemma find?_equals : Platform.find? "java/lang/String" "equals" "(Ljava/lang/Object;)Z" =
    some .textEquals := by
  decide

lemma returnsValue_equals : returnsValue "(Ljava/lang/Object;)Z" := by decide +kernel

section

variable {n depth : Nat} (ha : i.op.action? = some .invokeVirtual)

include ha

/-- The hash of a text. -/
lemma step_hash (href : r.pool.memberAt (poolIndex i.operand) =
    .ok ⟨"java/lang/String", "hashCode", "()I", false⟩) (hs : s.PlainTexts) (v : String) :
    step (invoke (n + 1) depth) i ⟨r, L, .str v :: st⟩ s =
    ((.ok (.goto i.next), ⟨r, L, .int (Text.hash v) :: st⟩), s) :=
  step_text [] ha hs href parse_hash rfl returnsValue_hash (by simp) find?_hash rfl

/-- The comparison of a text with another one. -/
lemma step_equals (href : r.pool.memberAt (poolIndex i.operand) =
    .ok ⟨"java/lang/String", "equals", "(Ljava/lang/Object;)Z", false⟩) (hs : s.PlainTexts)
    (v w : String) : step (invoke (n + 1) depth) i ⟨r, L, .str w :: .str v :: st⟩ s =
    ((.ok (.goto i.next), ⟨r, L, .ofBool (w == v) :: st⟩), s) :=
  step_text [.str w] ha hs href parse_equals rfl returnsValue_equals (by simp) find?_equals rfl

/-- There is no hash of null. -/
lemma step_hash_null (href : r.pool.memberAt (poolIndex i.operand) =
    .ok ⟨"java/lang/String", "hashCode", "()I", false⟩) :
    ∃ id o s', step inv i ⟨r, L, .null :: st⟩ s = ((.error (.thrown id), ⟨r, L, st⟩), s') ∧
    s'.object? id = some o ∧ o.cls = "java/lang/NullPointerException" := by
  obtain ⟨id, s', hraise, o, ho⟩ := raise_apply (α := Unit) "java/lang/NullPointerException"
    ("cannot invoke " ++ dotted "java/lang/String" ++ "." ++ "hashCode" ++ " on null") s
  have hcall : invokeOn inv .virtual ⟨"java/lang/String", "hashCode", "()I", false⟩ .null [] s =
      (.error (.thrown id), s') := by
    rw [invokeOn, if_pos (show Value.null.isNull = true from rfl), bind_apply, hraise]
  have hstep : step inv i ⟨r, L, [.null] ++ st⟩ s = _ :=
    step_invocation href parse_hash rfl ha rfl returnsValue_hash
  exact ⟨id, o, s', by simpa [Invocation.run, hcall] using hstep, ho⟩

end

end Classwright.Machine
