import Classwright.Proofs.Lowering.Layout
import Classwright.Proofs.Machine.Texts

/-!
Runs of emitted code.

A run of a finished method that comes to an instruction of a part of it finds the one that was
emitted there (`fetches_emission`), and the constants that it names in the pool. So the run goes on
as the part says (`Heads`).
-/

namespace Classwright

namespace Lowering

open Machine (Fetches Heads Image Op Value)

variable {env : Env} {ρ ρ' σ σ' τ : State} {u : Unit} {l : Label} {bs : Bytes}
  {rows : List ExceptionEntry}
  {c : CodeAttribute} {table : Array (Option Insn)} {live : Nat → Prop} {r : Machine.Routine}
    {L : Array Value}
  {st : List Value} {s : Machine.State} {w : Value}

/-- What is lowered at one time is there at a later one. -/
structure Remains (σ τ : State) : Prop where
  code : σ.code.Extends τ.code
  supply : Supplies σ τ

namespace Remains

lemma trans (h : Remains ρ σ) (h' : Remains σ τ) : Remains ρ τ :=
  ⟨h.code.trans h'.code, h.supply.trans h'.supply⟩

lemma of_emits (h : Emits σ τ) : Remains σ τ :=
  ⟨h.code.toExtends, h.coherent, h.pool, by rw [h.rest]⟩

lemma of_follows (h : Follows σ τ) : Remains σ τ := ⟨h.code.keeps, h.supply⟩

end Remains

section

variable (hI : Image τ.code rows c table live) (hbuilt : τ.code.Built)
  (hfin : τ.code.finish = .ok (bs, rows)) (hr : Ready ρ) {a : Action} {v : Local}

include hI hbuilt hfin hr

omit hbuilt in
/-- A run that comes to where an instruction was emitted finds it there. -/
lemma fetches_emission (hlaid : τ.code.Laid) {e : Emission} {d : Code} (hfit : e.Fits)
    (hl : ∀ l ∈ e.labels, l.id < ρ.code.labels.size) (h : ρ.code.emission e = .ok d)
    (hext : d.Extends τ.code) :
    ∃ i, Fetches c table ρ.code.size i ∧ e.Yields τ.code.position? i ∧ i.next = d.size := by
  obtain ⟨-, -, i, hi, hy, hnext⟩ := hlaid.yields_emission hfin hr.laid.size hfit hl h hext
  refine ⟨i, ?_, hy, hnext⟩
  rintro f s ⟨f₀, s₀, hrun⟩
  obtain ⟨p, hp, hlive⟩ := hI.visits hrun
  obtain rfl : ρ.code.size = p := by simpa using hp
  exact (hI.fetch hi hlive).2

/-- One instruction. -/
lemma heads_single {x : Lower Unit} {e : Emission} {y : Op Unit} {L' : Array Value}
    {st' : List Value} (hx : Single x e) (he : e.Performs y) (h : x env ρ = .ok (u, ρ'))
    (hext : ρ'.code.Extends τ.code) (hy : y ⟨r, L, st⟩ s = ((.ok (), ⟨r, L', st'⟩), s)) :
    Heads c table (⟨r, L, st⟩, ρ.code.size, s) (⟨r, L', st'⟩, ρ'.code.size, s) := by
  obtain ⟨d, hd, rfl⟩ := hx.emission h
  obtain ⟨i, hi, hyields, hnext⟩ :=
    fetches_emission hI hfin hr hbuilt.laid hx.fits (by simp [hx.labels]) hd hext
  obtain ⟨a, ha, hplain, hperform⟩ := he _ i hyields
  obtain ⟨-, hend, hbranch⟩ := Action.isPlain_iff.1 hplain
  exact .of_fetches hi fun n depth =>
    hnext ▸ Machine.step_of_perform ha hend hbranch (by rw [hperform, hy])

lemma heads_load (h : load v env ρ = .ok (u, ρ')) (hext : ρ'.code.Extends τ.code)
    (hv : L[v.slot]? = some w) :
    Heads c table (⟨r, L, st⟩, ρ.code.size, s) (⟨r, L, w :: st⟩, ρ'.code.size, s) :=
  heads_single hI hbuilt hfin hr (.onLocal _ _) (Emission.performs_load _ _) h hext
    (Machine.push_load_apply hv)

lemma heads_store (h : store v env ρ = .ok (u, ρ')) (hext : ρ'.code.Extends τ.code)
    (hv : v.slot < L.size) : Heads c table (⟨r, L, w :: st⟩, ρ.code.size, s)
    (⟨r, L.setIfInBounds v.slot w, st⟩, ρ'.code.size, s) :=
  heads_single hI hbuilt hfin hr (.onLocal _ _) (Emission.performs_store _ _) h hext
    (Machine.pop_store_apply hv)

/-! ### Branches -/

lemma fetches_branch (hl : l.id < ρ.code.labels.size) (h : branch a l env ρ = .ok (u, ρ'))
    (hext : ρ'.code.Extends τ.code) :
    ∃ i q, Fetches c table ρ.code.size i ∧ i.op.action? = some a ∧ τ.code.position? l = some q ∧
    i.operand = q ∧ i.next = ρ'.code.size := by
  obtain ⟨d, hd, rfl⟩ := onCode?_eq_ok_iff.1 h
  obtain ⟨i, hi, ⟨q, hq, hy⟩, hnext⟩ :=
    fetches_emission (e := .jump a.opcode l) hI hfin hr hbuilt.laid trivial
      (by simpa [Emission.labels] using hl) hd hext
  exact ⟨i, q, hi, Insn.action?_of_op (by rw [hy]), hq, by rw [hy], hnext⟩

lemma heads_goto (hl : l.id < ρ.code.labels.size) (h : branch .goto l env ρ = .ok (u, ρ'))
    (hext : ρ'.code.Extends τ.code) : ∃ q, τ.code.position? l = some q ∧
      ∀ f s, Heads c table (f, ρ.code.size, s) (f, q, s) := by
  obtain ⟨i, q, hi, hop, hq, hoperand, -⟩ := fetches_branch hI hbuilt hfin hr hl h hext
  exact ⟨q, hq, fun f s => .of_fetches hi fun n depth => hoperand ▸ Machine.step_goto hop⟩

/-- A branch on a truth value. -/
lemma heads_ifTrue (hl : l.id < ρ.code.labels.size) (h : branch (.ifZero .ne) l env ρ = .ok (u, ρ'))
    (hext : ρ'.code.Extends τ.code) : ∃ q, τ.code.position? l = some q ∧
      ∀ r L st s (b : Bool), Heads c table (⟨r, L, .ofBool b :: st⟩, ρ.code.size, s)
        (⟨r, L, st⟩, (if b then q else ρ'.code.size : Nat), s) := by
  obtain ⟨i, q, hi, hop, hq, hoperand, hnext⟩ := fetches_branch hI hbuilt hfin hr hl h hext
  refine ⟨q, hq, fun r L st s b => .of_fetches hi fun n depth => ?_⟩
  have htaken : Machine.taken (.ifZero .ne) ⟨r, L, .ofBool b :: st⟩ s =
      ((.ok b, ⟨r, L, st⟩), s) := by
    cases b <;> rfl
  rw [Machine.step_of_taken hop rfl htaken, hoperand, hnext]
  cases b <;> rfl

/-! ### Constants -/

section

variable (hpool : τ.pool.Extends r.pool) (hfits : r.pool.overflowed = false)

include hpool hfits

omit hI hbuilt hfin in
/-- A constant that is put into the pool is there when the method is run. -/
lemma exists_pooled {m : PoolM UInt16} {Q : Pool → UInt16 → Prop} {f : UInt16 → Lower Unit}
    (hput : Pool.Puts m Q) (hlast : Pool.Lasts Q) (hf : ∀ index, Straight env (f index))
    (h : (pooling m >>= f) env ρ = .ok (u, ρ')) (hρ : Remains ρ' τ) : ∃ index ρ₁, Q r.pool index ∧
      f index env ρ₁ = .ok (u, ρ') ∧ Ready ρ₁ ∧ ρ₁.code.size = ρ.code.size := by
  obtain ⟨index, ρ₁, hindex, h⟩ := bind_eq_ok_iff.1 h
  have hr₁ := hr.emits (Adds.pooling hput.adds hindex).1
  have hpool₁ : ρ₁.pool.Extends r.pool :=
    (((Remains.of_emits (Adds.of_straight (hf index) h).1).trans hρ).supply.pool hr₁.coherent).trans
      hpool
  obtain ⟨rfl, rfl⟩ := pooling_eq_ok_iff.1 hindex
  exact ⟨_, _, hput.later hlast hr.coherent hpool₁ hfits, h, hr₁, rfl⟩

/-- A text is loaded from the pool. -/
lemma heads_text {t : String} (h : (pooling (Pool.str t) >>= loadConst) env ρ = .ok (u, ρ'))
    (hρ : Remains ρ' τ) : Heads c table (⟨r, L, st⟩, ρ.code.size, s)
    (⟨r, L, .str t :: st⟩, ρ'.code.size, s) := by
  obtain ⟨index, ρ₁, hindex, h, hr₁, hsize⟩ :=
    exists_pooled (Q := fun q i => q.Denotes i (.str t)) hr hpool hfits
    (Pool.puts_str t) (fun _ _ _ he => he.denotes) (fun _ => .loadConst _) h hρ
  obtain ⟨e, hx, he, -⟩ := finds_loadConst index
  rw [← hsize]
  refine heads_single hI hbuilt hfin hr₁ hx he.performs h hρ.code ?_
  rw [Machine.Op.bind_apply, Machine.constant_apply hindex]
  rfl

/-- The method that a call names is found in the pool. -/
lemma fetches_invoke {owner name desc : String}
    (h : invokeVirtual owner name desc env ρ = .ok (u, ρ')) (hρ : Remains ρ' τ) :
    ∃ i, Fetches c table ρ.code.size i ∧ i.op.action? = some .invokeVirtual ∧
    i.next = ρ'.code.size ∧ r.pool.memberAt (Machine.poolIndex i.operand) =
    .ok ⟨owner, name, desc, false⟩ := by
  obtain ⟨index, ρ₁, hmember, h, hr₁, hsize⟩ := exists_pooled hr hpool hfits
    (Pool.puts_method owner name desc false) Pool.lasts_memberAt (fun _ => .emitShort rfl _) h hρ
  have hx := Single.emitShort (a := .invokeVirtual) rfl (by simp) index
  obtain ⟨d, hd, rfl⟩ := hx.emission h
  obtain ⟨i, hi, hy, hnext⟩ :=
    fetches_emission hI hfin hr₁ hbuilt.laid hx.fits (by simp [hx.labels]) hd hρ.code
  refine ⟨i, hsize ▸ hi, Insn.action?_of_op (by rw [hy]), hnext, ?_⟩
  rw [show i.operand = index.toNat by rw [hy], Machine.poolIndex_toNat]
  exact hmember

end

end

end Lowering

end Classwright
