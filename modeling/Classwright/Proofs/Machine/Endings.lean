import Classwright.Proofs.Machine.Invocations

/-!
How runs end.

Where calls are free, a run does from one place on what it does from the places that it comes to: it
ends in the same way (`Ends`), and it takes at least as many steps (`Lasts`). Without handlers an
exception ends a run.
-/

namespace Classwright.Machine

namespace Session

variable (S : Session)

/-- A run from a place on. -/
def run (n : Nat) (x : Frame × Int × State) : Except Stop Value × State :=
  loop n S.depth S.attr S.table x.1 x.2.1 x.2.2

/-- The machine comes to an end, given enough fuel. -/
def Ends (x : Frame × Int × State) (r : Except Stop Value × State) : Prop :=
  ∃ m, ∀ n ≥ m, S.run n x = r

/-- The machine has not come to an end within fewer than `k` steps. -/
def Lasts (k : Nat) (x : Frame × Int × State) : Prop := ∀ n < k, (S.run n x).1 = .error .fuel

variable {S} {x y : (Frame × Int × State) × List Invocation} {k m : Nat}
  {r : Except Stop Value × State} {s : State}

lemma run_succ (h : S.Treads true x y) (n : Nat) : S.run (n + 1) x.1 = S.run n y.1 := by
  obtain ⟨i, hi, -, -, hstep⟩ := h
  simp only [run, loop, round, hi, hstep (invoke n S.depth) (.inl rfl)]

lemma Ends.of_succ (h : ∀ n ≥ m, S.run (n + 1) x.1 = r) : S.Ends x.1 r := by
  refine ⟨m + 1, fun n hn => ?_⟩
  obtain ⟨n, rfl⟩ := Nat.exists_eq_add_of_lt hn
  exact h _ (by omega)

lemma Ends.of_treads (hy : S.Ends y.1 r) (h : Relation.ReflTransGen (S.Treads true) x y) :
    S.Ends x.1 r := by
  induction h using Relation.ReflTransGen.head_induction_on with
  | refl => exact hy
  | head h _ ih =>
    obtain ⟨m, hm⟩ := ih
    exact .of_succ fun n hn => (run_succ h n).trans (hm n hn)

namespace Lasts

lemma mono (h : S.Lasts k x.1) (hm : m ≤ k) : S.Lasts m x.1 := fun n hn => h n (hn.trans_le hm)

lemma tread (hy : S.Lasts k y.1) (h : S.Treads true x y) : S.Lasts (k + 1) x.1 := by
  intro n hn
  cases n with
  | zero => rfl
  | succ n =>
    rw [run_succ h]
    exact hy n (by omega)

lemma of_treads (hy : S.Lasts k y.1) (h : Relation.ReflTransGen (S.Treads true) x y) :
    S.Lasts k x.1 := by
  induction h using Relation.ReflTransGen.head_induction_on with
  | refl => exact hy
  | head h _ ih => exact (ih.tread h).mono k.le_succ

lemma of_leaps (hy : S.Lasts k y.1) (h : Relation.TransGen (S.Treads true) x y) :
    S.Lasts (k + 1) x.1 := by
  obtain ⟨z, hz, h⟩ := Relation.TransGen.head'_iff.1 h
  exact (hy.of_treads h).tread hz

end Lasts

/-- An exception leaves a method without handlers. -/
lemma Halts.ends {id : Nat} {t : List Invocation} (h : S.Halts true x (.thrown id) t s)
    (hh : S.attr.handlers = []) : S.Ends x.1 (.error (.thrown id), s) := by
  obtain ⟨y, hrun, i, hi, -, -, hstep⟩ := h
  refine .of_treads (.of_succ (m := 0) fun n _ => ?_) hrun
  obtain ⟨g, hstep⟩ := hstep (invoke n S.depth) (.inl rfl)
  simp only [run, loop, round, hi, hstep, hh]
  rfl

/-! ### Calls -/

/-- A call of the routine at a depth is a run from its start. -/
structure Calls (S : Session) (depth : Nat) (args : List Value) : Prop where
  body : S.routine.body = .code S.attr S.table
  nested : S.depth = depth + 1
  allowed : depth < maxDepth
  placed : placeArgs args 0 (Array.replicate (S.attr.maxLocals.toNat + 1) .null) = some S.locals

namespace Calls

variable {depth : Nat} {args : List Value}

lemma invoke_succ (h : S.Calls depth args) (n : Nat) (s : State) :
    invoke (n + 1) depth S.routine args s = contained (S.run n (S.frame [], 0, s)) := by
  rw [invoke, h.body]
  simp only [if_neg (Nat.not_le.2 h.allowed), h.placed]
  rw [run, h.nested]
  rfl

lemma ends (h : S.Calls depth args) (he : S.Ends (S.frame [], 0, s) r) (hr : contained r = r) :
    ∃ m, ∀ n ≥ m, invoke n depth S.routine args s = r := by
  obtain ⟨m, hm⟩ := he
  refine ⟨m + 1, fun n hn => ?_⟩
  obtain ⟨n, rfl⟩ := Nat.exists_eq_add_of_lt hn
  rw [h.invoke_succ, hm _ (by omega), hr]

lemma lasts (h : S.Calls depth args) (hl : ∀ k, S.Lasts k (S.frame [], 0, s)) (n : Nat) :
    (invoke n depth S.routine args s).1 = .error .fuel := by
  cases n with
  | zero => rfl
  | succ n =>
    have hfuel := hl (n + 1) n n.lt_succ_self
    rw [h.invoke_succ]
    revert hfuel
    generalize S.run n (S.frame [], 0, s) = out
    rcases out with ⟨out, s'⟩
    rintro rfl
    rfl

end Calls

end Session

end Classwright.Machine
