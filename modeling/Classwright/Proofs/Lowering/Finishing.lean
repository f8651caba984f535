import Classwright.Proofs.Lowering.Scoping

/-!
From the code of a body to a method.

A body is followed by a return where control comes to its end. The code is then assembled and
analysed, and its stack map is written, which adds constants only. The machine runs what comes out
and stays where the analysis has been (`Finished.enclosure`).
-/

namespace Classwright

/-! ### Stack maps -/

namespace Pool

variable {α : Type}

lemma adds_pure (a : α) : Adds (pure a : PoolM α) := fun p hp => ⟨hp, .refl p⟩

lemma Adds.ite {p : Prop} [Decidable p] {m n : PoolM α} (hm : Adds m) (hn : Adds n) :
    Adds (if p then m else n) := by
  split
  · exact hm
  · exact hn

lemma Adds.mapM {β : Type} {f : α → PoolM β} (hf : ∀ a, Adds (f a)) (as : List α) :
    Adds (as.mapM f) := by
  induction as with
  | nil => exact adds_pure _
  | cons a as ih =>
    rw [List.mapM_cons]
    exact .bind (hf a) fun _ => .bind ih fun _ => adds_pure _

lemma adds_vtype (v : VType) : Adds v.encode := by
  cases v with
  | ref c => exact .bind (adds_cls c) fun _ => adds_pure _
  | _ => exact adds_pure _

lemma adds_types (vs : List VType) : Adds (encodeTypes vs) :=
  .bind (.mapM adds_vtype vs) fun _ => adds_pure _

/-- Every form of a frame names the classes of its types. -/
lemma adds_frame (delta : Int) (prev : List VType) (f : MapFrame) : Adds (f.encode delta prev) := by
  have hfull : Adds (f.encodeFull delta) :=
    .bind (adds_types _) fun _ => .bind (adds_types _) fun _ => adds_pure _
  unfold MapFrame.encode
  split
  · exact .ite (adds_pure _)
      (.ite (adds_pure _) (.ite (.bind (adds_types _) fun _ => adds_pure _) hfull))
  · exact .ite (.bind (adds_vtype _) fun _ => adds_pure _) hfull
  · exact hfull

lemma adds_frames (offset : Int) (prev : List VType) (fs : List MapFrame) :
    Adds (encodeFrames offset prev fs) := by
  induction fs generalizing offset prev with
  | nil => exact adds_pure _
  | cons f fs ih => exact .bind (adds_frame _ _ _) fun _ => .bind (ih _ _) fun _ => adds_pure _

lemma adds_stackMap (initial : List VType) (fs : List MapFrame) :
    Adds (Attribute.stackMap initial fs) :=
  .bind (adds_frames _ _ _) fun _ => .bind (adds_add _) fun _ => adds_pure _

end Pool

/-! ### Finished code -/

namespace Code

variable {c : Code}

lemma Laid.length_bytes (h : c.Laid) : c.bytes.length = c.size := by
  rw [bytes_eq, length_flat, h.size]

lemma handlers?_of_guards (h : c.guards = []) : c.handlers? = some [] := by
  unfold handlers?
  rw [h]
  rfl

end Code

namespace Lowering

open Machine (Enclosure insnTable)

variable {env : Env} {σ σ' : State} {c : CodeAttribute} {method : MethodCode} {a : Analysis}

/-- The map of the stack only adds to the pool. -/
lemma conclude_eq_ok {maxLocals : Nat} (h : conclude a maxLocals env σ = .ok (c, σ')) :
    maxLocals ≤ 65535 ∧ c.maxLocals = UInt16.ofNat maxLocals ∧ c.code = a.code ∧
    c.handlers = a.handlers ∧ (σ.pool.Coherent → σ.pool.Extends σ'.pool) := by
  obtain ⟨hfits, h⟩ := unless_eq_ok h
  refine ⟨by omega, ?_⟩
  split_ifs at h
  · obtain ⟨attributes, τ, hpure, h⟩ := bind_eq_ok_iff.1 h
    obtain ⟨-, rfl⟩ := pure_eq_ok_iff.1 hpure
    obtain ⟨rfl, rfl⟩ := pure_eq_ok_iff.1 h
    exact ⟨rfl, rfl, rfl, fun _ => .refl _⟩
  · obtain ⟨attributes, τ, hmap, h⟩ := bind_eq_ok_iff.1 h
    obtain ⟨rfl, rfl⟩ := pure_eq_ok_iff.1 h
    rw [← bind_pure_comp] at hmap
    obtain ⟨stackMap, τ', hpool, hτ⟩ := bind_eq_ok_iff.1 hmap
    obtain ⟨-, rfl⟩ := pure_eq_ok_iff.1 hτ
    obtain ⟨-, rfl⟩ := pooling_eq_ok_iff.1 hpool
    exact ⟨rfl, rfl, rfl, fun hp => (Pool.adds_stackMap _ _ hp).2⟩

/-- A method whose code and analysis are those of a body. -/
structure Finished (env : Env) (σ : State) (c : CodeAttribute) (method : MethodCode)
    (a : Analysis) : Prop where
  assembled : σ.code.finish = .ok (method.code, method.handlers)
  pool : method.pool = σ.pool
  analysed : method.analyze env.unit.hierarchy = .ok a
  code : c.code = a.code
  handlers : c.handlers = a.handlers
  locals : σ.maxLocals ≤ c.maxLocals.toNat

/-- Code that is finished was assembled and analysed. -/
lemma exists_finished (h : finish env σ = .ok (c, σ')) :
    (∃ method a, Finished env σ c method a) ∧ (σ.pool.Coherent → σ.pool.Extends σ'.pool) := by
  replace h := get_bind_eq_ok_iff.1 h
  replace h := read_bind_eq_ok_iff.1 h
  cases hfin : σ.code.finish with
  | error e =>
    rw [hfin] at h
    exact absurd h throw_ne_ok
  | ok r =>
    rw [hfin] at h
    dsimp only at h
    cases ha : MethodCode.analyze ⟨env.unit.decl.ty.internal, env.method.descriptor,
        env.method.isStatic, env.method.isConstructor, r.1, r.2, σ.pool⟩ env.unit.hierarchy with
    | error e =>
      rw [ha] at h
      exact absurd h throw_ne_ok
    | ok a =>
      rw [ha] at h
      obtain ⟨hfits, hlocals, hcode, hhandlers, hpool⟩ := conclude_eq_ok h
      refine ⟨⟨_, a, hfin, rfl, ha, hcode, hhandlers, ?_⟩, hpool⟩
      rw [hlocals, UInt16.toNat_ofNat_of_lt' (Nat.lt_succ_of_le hfits)]
      exact le_max_right _ _

lemma finish_eq_ok (h : finish env σ = .ok (c, σ')) (hp : σ.pool.Coherent) :
    (∃ method a, Finished env σ c method a) ∧ σ.pool.Extends σ'.pool :=
  (exists_finished h).imp_right fun hpool => hpool hp

/-! ### Methods -/

variable {u : ClassUnit} {m : Method} {pool pool' : Pool} {n : Nat}

@[simp] lemma env_method : (Lowering.env u m n).method = m := by cases n <;> rfl

@[simp] lemma env_params : (Lowering.env u m n).params = (methodSlots m).1 := by cases n <;> rfl

/-- Gives parameters their slots, behind those that have theirs. -/
def bindBehind (bound : List Local × Nat) (ps : List Param) : List Local × Nat :=
  ps.foldl (fun (done, next) p => (⟨p.name, next, p.ty⟩ :: done, next + p.ty.width)) bound

lemma bindBehind_cons (bound : List Local × Nat) (p : Param) (ps : List Param) :
    bindBehind bound (p :: ps) =
    bindBehind (⟨p.name, bound.2, p.ty⟩ :: bound.1, bound.2 + p.ty.width) ps := rfl

lemma le_bindBehind (ps : List Param) (bound : List Local × Nat) :
    bound.2 ≤ (bindBehind bound ps).2 := by
  induction ps generalizing bound with
  | nil => exact le_rfl
  | cons p ps ih =>
    rw [bindBehind_cons]
    exact (Nat.le_add_right _ _).trans (ih (_, bound.2 + p.ty.width))

lemma stacked_bindBehind {ps : List Param} (hps : ∀ p ∈ ps, p.ty.isVoid = false) {vs : List Local}
    {next : Nat} (h : Stacked 0 next vs) :
    Stacked 0 (bindBehind (vs, next) ps).2 (bindBehind (vs, next) ps).1 := by
  induction ps generalizing vs next with
  | nil => exact h
  | cons p ps ih =>
    rw [bindBehind_cons]
    have hpos := width_pos (hps p List.mem_cons_self)
    exact ih (fun q hq => hps q (List.mem_cons_of_mem p hq)) ⟨Nat.lt_add_of_pos_right hpos, h⟩

/-- A body starts with its parameters in their slots. -/
lemma sited_start (henv : env.params = (methodSlots m).1)
    (hps : ∀ p ∈ m.params, p.ty.isVoid = false) : Sited env (State.start m pool) where
  scopes := List.cons_ne_nil _ _
  slots := by
    rw [henv]
    exact stacked_bindBehind hps (Nat.zero_le _)
  fits := le_rfl
  plain := rfl
  unprotected := rfl

lemma ready_start (hp : pool.Coherent) : Ready (State.start m pool) := ⟨Code.laid_empty, hp⟩

/-- A body is followed by a return where control comes to its end. -/
def Closed (env : Env) (σ τ : State) : Prop :=
  σ.code.reachable ∧ env.method.returns.isVoid ∧ emit .returnVoid env σ = .ok ((), τ) ∨
    σ.code.reachable = false ∧ τ = σ

lemma Closed.emits {env : Env} {σ τ : State} (h : Closed env σ τ) : Emits σ τ := by
  rcases h with ⟨-, -, h⟩ | ⟨-, rfl⟩
  · exact (Single.emit rfl).emits h
  · exact .refl _

/-- A method is lowered in three parts: its statements, a return of a `void` method whose end
control comes to, and the rest. -/
lemma exists_lowered (h : lower u m pool = .ok (c, pool')) :
    ∃ σ τ σ', statements m.body (Lowering.env u m inlineDepth) (State.start m pool) = .ok ((), σ) ∧
    Closed (Lowering.env u m inlineDepth) σ τ ∧
    finish (Lowering.env u m inlineDepth) τ = .ok (c, σ') ∧ σ'.pool = pool' := by
  unfold lower at h
  split at h
  · next code σ' hbody =>
    obtain ⟨rfl, rfl⟩ : code = c ∧ σ'.pool = pool' := by simpa using h
    obtain ⟨_, σ, hσ, hbody⟩ := bind_eq_ok_iff.1 hbody
    obtain ⟨reached, _, hread, hbody⟩ := bind_eq_ok_iff.1 hbody
    obtain ⟨hreach, rfl⟩ := reachable_eq_ok_iff.1 hread
    cases reached with
    | false => exact ⟨σ, σ, σ', hσ, .inr ⟨hreach, rfl⟩, hbody, rfl⟩
    | true =>
      by_cases hvoid : m.returns.isVoid
      · rw [if_pos rfl, if_pos hvoid] at hbody
        obtain ⟨_, τ, hret, hbody⟩ := bind_eq_ok_iff.1 hbody
        exact ⟨σ, τ, σ', hσ, .inl ⟨hreach, by rwa [env_method], hret⟩, hbody, rfl⟩
      · rw [if_pos rfl, if_neg hvoid] at hbody
        obtain ⟨_, τ, hthrow, -⟩ := bind_eq_ok_iff.1 hbody
        exact absurd hthrow throw_ne_ok
  · cases h

lemma lower_eq_ok (h : lower u m pool = .ok (c, pool')) : ∃ env σ τ σ', env.method = m ∧
    env.params = (methodSlots m).1 ∧ statements m.body env (State.start m pool) = .ok ((), σ) ∧
    Closed env σ τ ∧ finish env τ = .ok (c, σ') ∧ σ'.pool = pool' := by
  obtain ⟨σ, τ, σ', h⟩ := exists_lowered h
  exact ⟨_, σ, τ, σ', env_method, env_params, h⟩

lemma Finished.unguarded (h : Finished env σ c method a) (hg : σ.code.guards = []) :
    c.handlers = [] := by
  obtain ⟨-, -, -, -, hh, -⟩ := Code.finish_eq_ok h.assembled
  obtain ⟨insns, _, ret, locals, p, -, -, -, -, -, rfl⟩ := MethodCode.analyzeWithin_eq_ok h.analysed
  have hm : method.handlers = [] := Option.some.inj (hh.symm.trans (Code.handlers?_of_guards hg))
  rw [h.handlers]
  show method.handlers.flatMap _ = []
  rw [hm]
  rfl

/-- The assembler refuses code that is longer. -/
lemma Finished.length_le (h : Finished env σ c method a) (hl : σ.code.Laid) :
    method.code.length ≤ 65536 := by
  obtain ⟨-, -, hsize, -, -, hbytes⟩ := Code.finish_eq_ok h.assembled
  rw [hbytes, hl.length_bytes]
  omega

/-- What the analysis keeps of the code decodes. -/
lemma Finished.enclosure (h : Finished env σ c method a) (hl : σ.code.Laid) :
    ∃ insns live, Insn.decodeAll c.code = .ok insns ∧
    Enclosure method a (insnTable c.code.length insns) live := by
  rw [h.code]
  exact MethodCode.analyze_enclosure (h.length_le hl) h.analysed

end Lowering

end Classwright
