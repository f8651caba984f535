import Classwright.Proofs.Machine.Confinement

/-!
Runs of a method.

An instruction changes the stack and the values of variables. The method that is run, and with it
the pool of its constants, and the number of its variables are the same wherever a run comes to
(`steady_of_run`). From a place that it comes to, a run may go on to another one in any number of
steps (`Heads`).
-/

namespace Classwright.Machine

variable {inv : Invoke} {handlers : List ExceptionEntry} {table : Array (Option Insn)}
  {f f' : Frame} {pc pc' : Int} {s s' : State} {x y : Frame × Int × State} {c : CodeAttribute}

/-- A run keeps the method, whether it goes on or to a handler. -/
lemma steady_of_run (h : Relation.ReflTransGen (Goes c.handlers table) x y) : x.1.Steady y.1 := by
  induction h with
  | refl => exact .refl _
  | @tail y z _ hgoes ih =>
    obtain ⟨n, depth, hround⟩ := hgoes
    have halike : Round.Alike (fun _ => True) y.1 (.onward z.1 z.2.1 z.2.2) _ :=
      hround ▸ (Mirrored.refl c table).round ((run_agree n).1 depth) trivial (.refl y.1)
        (.refl y.2.2)
    exact ih.trans halike.steady

/-- Control goes from one place to another. Calls may take all the fuel but some. -/
def Proceeds (handlers : List ExceptionEntry) (table : Array (Option Insn))
    (x y : Frame × Int × State) : Prop :=
  ∀ n depth, round (invoke (n + 1) depth) handlers table x.1 x.2.1 x.2.2 = .onward y.1 y.2.1 y.2.2

lemma Proceeds.goes (h : Proceeds handlers table x y) : Goes handlers table x y := ⟨1, 0, h 0 0⟩

lemma Proceeds.of_step {i : Insn} (hi : insnAt? table pc = some i)
    (h : ∀ n depth, step (invoke (n + 1) depth) i f s = ((.ok (.goto pc'), f'), s')) :
    Proceeds handlers table (f, pc, s) (f', pc', s') := by
  intro n depth
  show round (invoke (n + 1) depth) handlers table f pc s = _
  rw [round, hi]
  dsimp only
  rw [h n depth]

/-- A run of the method comes to the place. -/
def Visited (c : CodeAttribute) (table : Array (Option Insn)) (x : Frame × Int × State) : Prop :=
  ∃ f₀ s₀, Relation.ReflTransGen (Goes c.handlers table) (f₀, 0, s₀) x

/-- A run that comes to an offset has an instruction there. -/
def Fetches (c : CodeAttribute) (table : Array (Option Insn)) (p : Nat) (i : Insn) : Prop :=
  ∀ f s, Visited c table (f, p, s) → insnAt? table p = some i

/-- A run that comes to the one place goes on to the other. -/
def Heads (c : CodeAttribute) (table : Array (Option Insn)) (x y : Frame × Int × State) : Prop :=
  Visited c table x → Relation.TransGen (Proceeds c.handlers table) x y

namespace Heads

variable {c : CodeAttribute} {z : Frame × Int × State}

lemma visited (h : Heads c table x y) (hx : Visited c table x) : Visited c table y := by
  obtain ⟨f₀, s₀, hrun⟩ := hx
  refine ⟨f₀, s₀, hrun.trans ?_⟩
  exact Relation.ReflTransGen.mono (fun _ _ => Proceeds.goes) _ _ (h ⟨f₀, s₀, hrun⟩).to_reflTransGen

lemma trans (h : Heads c table x y) (h' : Heads c table y z) : Heads c table x z := fun hx =>
  (h hx).trans (h' (h.visited hx))

lemma of_fetches {i : Insn} {p q : Nat} (hi : Fetches c table p i)
    (h : ∀ n depth, step (invoke (n + 1) depth) i f s = ((.ok (.goto q), f'), s')) :
    Heads c table (f, p, s) (f', q, s') := fun hx => .single (.of_step (hi f s hx) h)

/-- A number on the stack is taken by a dispatch. -/
lemma of_consumes {v : Int32} {p q : Nat} {st : List Value} (h : Consumes c table v p q)
    (hst : f.stack = .int v :: st) : Heads c table (f, p, s) ({ f with stack := st }, q, s) := by
  rintro ⟨f₀, s₀, hrun⟩
  exact Relation.TransGen.mono (fun _ _ h _ _ => h _) _ _ (h f₀ s₀ f s st hrun hst)

end Heads

/-- A run that comes to the place goes on to throw a new exception of the class, whatever calls do
there. -/
def Raises (c : CodeAttribute) (table : Array (Option Insn)) (x : Frame × Int × State)
    (cls : String) : Prop :=
  Visited c table x → ∃ y i, Relation.TransGen (Proceeds c.handlers table) x y ∧
    insnAt? table y.2.1 = some i ∧
    ∀ inv, ∃ id o g s', step inv i y.1 y.2.2 = ((.error (.thrown id), g), s') ∧
      s'.object? id = some o ∧ o.cls = cls

/-- A frame that a method can be run in: it has the constants of the method and slots for its
variables. -/
structure Hosts (pool : Pool) (c : CodeAttribute) (f : Frame) : Prop where
  pool : pool.Extends f.routine.pool
  fits : f.routine.pool.overflowed = false
  locals : c.maxLocals.toNat ≤ f.locals.size

lemma Hosts.of_extends {pool pool' : Pool} (h : Hosts pool' c f) (he : pool.Extends pool') :
    Hosts pool c f := ⟨he.trans h.pool, h.fits, h.locals⟩

/-- A run does not leave such frames. -/
lemma Hosts.of_run {pool : Pool} (h : Hosts pool c x.1)
    (hrun : Relation.ReflTransGen (Goes c.handlers table) x y) : Hosts pool c y.1 := by
  obtain ⟨hroutine, hlocals⟩ := steady_of_run hrun
  exact ⟨hroutine ▸ h.pool, hroutine ▸ h.fits, hlocals ▸ h.locals⟩

end Classwright.Machine
