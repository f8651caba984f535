import Mathlib.Tactic

/-!
Computations that may fail, taken apart.

The lemmas here turn a successful computation into the successes of its parts, so that proofs go
along a computation by `obtain` and do not unfold the monad it runs in.
-/

namespace Classwright

section

variable {ε ε' σ α β : Type} {u : PUnit}

lemma Except.bind_eq_ok_iff {x : Except ε α} {f : α → Except ε β} {b : β} :
    x >>= f = .ok b ↔ ∃ a, x = .ok a ∧ f a = .ok b := by
  cases x <;> simp [bind, Except.bind]

lemma Except.pure_eq_ok_iff {a b : α} : (pure a : Except ε α) = .ok b ↔ a = b := by
  simp [pure, Except.pure]

@[simp] lemma Except.throw_ne_ok {e : ε} {b : α} : (throw e : Except ε α) ≠ .ok b := by
  simp [throw, throwThe, MonadExceptOf.throw]

/-- A check in front of a computation. -/
lemma Except.refuse_eq_ok_iff {c : Prop} [Decidable c] {e : ε} {f : β → Except ε α} {x : Except ε α}
    {a : α} : (if c then throw e >>= f else x) = .ok a ↔ ¬ c ∧ x = .ok a := by
  split <;> simp_all [throw, throwThe, MonadExceptOf.throw, bind, Except.bind]

lemma Except.toOption_eq_some_iff {x : Except ε α} {a : α} : x.toOption = some a ↔ x = .ok a := by
  cases x <;> simp [Except.toOption]

lemma Except.mapError_eq_ok_iff {x : Except ε α} {f : ε → ε'} {a : α} :
    x.mapError f = .ok a ↔ x = .ok a := by
  cases x <;> simp [Except.mapError]

/-- A map over a list succeeds on each element. -/
lemma Except.forall₂_of_mapM_eq_ok {f : α → Except ε β} {xs : List α} {ys : List β}
    (h : xs.mapM f = .ok ys) : List.Forall₂ (fun x y => f x = .ok y) xs ys := by
  induction xs generalizing ys with
  | nil =>
    obtain rfl := Except.pure_eq_ok_iff.1 h
    exact .nil
  | cons x xs ih =>
    rw [List.mapM_cons] at h
    obtain ⟨y, hy, h⟩ := Except.bind_eq_ok_iff.1 h
    obtain ⟨ys, hys, h⟩ := Except.bind_eq_ok_iff.1 h
    obtain rfl := Except.pure_eq_ok_iff.1 h
    exact .cons hy (ih hys)

lemma Except.mapM_eq_ok_of_forall₂ {f : α → Except ε β} {xs : List α} {ys : List β}
    (h : List.Forall₂ (fun x y => f x = .ok y) xs ys) : xs.mapM f = .ok ys := by
  induction h with
  | nil => rfl
  | cons hx _ ih => rw [List.mapM_cons, hx, ih]; rfl

/-- A sequence of two steps that succeeds passes through a state between them. -/
lemma StateT.bind_eq_ok_iff {x : StateT σ (Except ε) α} {f : α → StateT σ (Except ε) β} {s s' : σ}
    {b : β} : (x >>= f) s = .ok (b, s') ↔ ∃ a t, x s = .ok (a, t) ∧ f a t = .ok (b, s') := by
  simp only [bind, StateT.bind, Except.bind]
  cases x s with
  | error e => simp
  | ok r =>
    obtain ⟨a, t⟩ := r
    simp

lemma StateT.pure_eq_ok_iff {a b : α} {s s' : σ} :
    (pure a : StateT σ (Except ε) α) s = .ok (b, s') ↔ a = b ∧ s = s' := by
  show Except.ok (a, s) = Except.ok (b, s') ↔ _
  simp

/-- A step that does not look at the state leaves it as it is. -/
lemma StateT.lift_eq_ok_iff {x : Except ε α} {a : α} {s s' : σ} :
    (liftM x : StateT σ (Except ε) α) s = .ok (a, s') ↔ x = .ok a ∧ s = s' := by
  simp only [liftM, monadLift, MonadLift.monadLift, StateT.lift, Except.bind_eq_ok_iff,
    Except.pure_eq_ok_iff, Prod.mk.injEq]
  constructor
  · rintro ⟨b, hb, rfl, rfl⟩
    exact ⟨hb, rfl⟩
  · rintro ⟨hx, rfl⟩
    exact ⟨a, hx, rfl, rfl⟩

lemma StateT.get_eq_ok_iff {s s' t : σ} :
    (get : StateT σ (Except ε) σ) s = .ok (t, s') ↔ s = t ∧ s = s' := by
  simp [get, getThe, MonadStateOf.get, StateT.get, pure, Except.pure]

lemma StateT.get_bind_eq_ok_iff {f : σ → StateT σ (Except ε) α} {s : σ} {r : α × σ} :
    (get >>= f) s = .ok r ↔ f s s = .ok r := .rfl

lemma StateT.modify_eq_ok_iff {f : σ → σ} {s s' : σ} :
    (modify f : StateT σ (Except ε) PUnit) s = .ok (u, s') ↔ f s = s' := by
  simp [modify, modifyGet, MonadStateOf.modifyGet, StateT.modifyGet, pure, Except.pure]

@[simp] lemma StateT.throw_ne_ok {e : ε} {s : σ} {r : α × σ} :
    (throw e : StateT σ (Except ε) α) s ≠ .ok r := by
  simp [throw, throwThe, MonadExceptOf.throw, StateT.lift, bind, Except.bind]

/-- A loop whose rounds each keep `I`, stay within a preorder `R` of states and reach a goal that
`R` keeps. -/
lemma StateT.forIn_spec {I : σ → Prop} {R : σ → σ → Prop} {G : α → σ → Prop} (hrefl : ∀ s, R s s)
    (htrans : ∀ {s t u}, R s t → R t u → R s u) (hkeep : ∀ {a s t}, G a s → R s t → G a t)
    {body : α → PUnit → StateT σ (Except ε) (ForInStep PUnit)} {xs : List α} {s s' : σ}
    (hround : ∀ a ∈ xs, ∀ {s r t}, I s → body a ⟨⟩ s = .ok (r, t) → r = .yield ⟨⟩ ∧ I t ∧ R s t ∧
    G a t) (hI : I s) (h : forIn xs PUnit.unit body s = .ok (u, s')) :
    R s s' ∧ ∀ a ∈ xs, G a s' := by
  induction xs generalizing s with
  | nil =>
    obtain ⟨-, rfl⟩ := StateT.pure_eq_ok_iff.1 h
    exact ⟨hrefl s, by simp⟩
  | cons a xs ih =>
    rw [List.forIn_cons] at h
    obtain ⟨r, t, hbody, h⟩ := StateT.bind_eq_ok_iff.1 h
    obtain ⟨rfl, hIt, hst, hG⟩ := hround a (by simp) hI hbody
    obtain ⟨hts, hGs⟩ := ih (fun a ha => hround a (List.mem_cons_of_mem _ ha)) hIt h
    refine ⟨htrans hst hts, fun x hx => ?_⟩
    rcases List.mem_cons.1 hx with rfl | hx
    · exact hkeep hG hts
    · exact hGs x hx

end

end Classwright
