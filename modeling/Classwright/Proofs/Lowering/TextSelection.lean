import Classwright.Proofs.Lowering.Execution
import Classwright.Proofs.Lowering.Selection

/-!
Switches on texts.

A switch on a text goes by the hash of its subject to the keys that have the hash, and compares the
subject with one after another. So keys with the same hash are told apart, and control comes to the
arm that lists a key equal to the subject, to the default, or behind the switch
(`Switch.reaches_arm_of_text`). There is no hash of null.
-/

namespace Classwright

open List
open Machine (Consumes Fetches Goes Heads Hosts Image Keeps Proceeds Raises Value Visited insnTable)

namespace Lowering

variable {env : Env} {ρ ρ' σ σ' τ τ' : State} {u : Unit} {held : Local} {key : String × Label}
  {keys : List (String × Label)} {default : Label} {v : String} {l : Label}

/-! ### Comparisons -/

lemma tryString_emits (hl : key.2.id < ρ.code.labels.size)
    (h : tryString held key env ρ = .ok (u, ρ')) : Emits ρ ρ' ∧ ρ'.code.Referred key.2 := by
  obtain ⟨_, ρ₁, h₁, h⟩ := bind_eq_ok_iff.1 h
  obtain ⟨index, ρ₂, h₂, h⟩ := bind_eq_ok_iff.1 h
  obtain ⟨_, ρ₃, h₃, h⟩ := bind_eq_ok_iff.1 h
  obtain ⟨_, ρ₄, h₄, h⟩ := bind_eq_ok_iff.1 h
  have hemits : Emits ρ ρ₄ :=
    (((Adds.load held h₁).1.trans (Adds.pooling (Pool.adds_str _) h₂).1).trans
      (Adds.of_straight (.loadConst index) h₃).1).trans
      (Adds.of_straight (.invoke rfl _ _ _ _) h₄).1
  exact ⟨hemits.trans (branch_emits rfl (hemits.label hl) h),
    referred_of_branch (hemits.label hl) h⟩

lemma tryStrings_emits (hk : ∀ k ∈ keys, k.2.id < ρ.code.labels.size)
    (hd : default.id < ρ.code.labels.size) (h : tryStrings held keys default env ρ = .ok (u, ρ')) :
    Emits ρ ρ' := by
  induction keys generalizing ρ with
  | nil =>
    obtain ⟨_, ρ₁, h₁, h⟩ := bind_eq_ok_iff.1 h
    obtain ⟨-, rfl⟩ := pure_eq_ok_iff.1 h₁
    exact branch_emits rfl hd h
  | cons key keys ih =>
    obtain ⟨_, ρ₁, h₁, h⟩ := bind_eq_ok_iff.1 h
    obtain ⟨_, ρ₂, h₂, h₁⟩ := bind_eq_ok_iff.1 h₁
    obtain ⟨hemits, -⟩ := tryString_emits (hk key mem_cons_self) h₂
    refine hemits.trans (ih (fun k hmem => ?_) (hemits.label hd) (bind_eq_ok_iff.2 ⟨_, ρ₁, h₁, h⟩))
    exact hemits.label (hk k (mem_cons_of_mem key hmem))

lemma Selects.cons (hne : key.1 ≠ v) (h : Selects keys default v l) :
    Selects (key :: keys) default v l := by
  refine h.imp (mem_cons_of_mem key) fun ⟨hnone, hl⟩ => ⟨fun k hk => ?_, hl⟩
  rcases mem_cons.1 hk with rfl | hk
  · exact hne
  · exact hnone k hk

/-- A frame has the constants that are lowered, and a text in a slot, where the machine has texts of
its own. -/
structure Holds (τ : State) (slot : Nat) (v : String) (f : Machine.Frame) (s : Machine.State) :
    Prop where
  pool : τ.pool.Extends f.routine.pool
  fits : f.routine.pool.overflowed = false
  texts : s.PlainTexts
  held : f.locals[slot]? = some (.str v)

section

variable {bs : Bytes} {rows : List ExceptionEntry} {c : CodeAttribute} {table : Array (Option Insn)}
  {live : Nat → Prop} (hI : Image τ.code rows c table live) (hbuilt : τ.code.Built)
  (hfin : τ.code.finish = .ok (bs, rows))

include hI hbuilt hfin

/-- A text in a slot is compared with a key. -/
lemma tryString_heads (hr : Ready ρ) (hl : key.2.id < ρ.code.labels.size)
    (h : tryString held key env ρ = .ok (u, ρ')) (hρ : Remains ρ' τ) :
    ∃ q, τ.code.position? key.2 = some q ∧ ∀ v f s, Holds τ held.slot v f s →
      Heads c table (f, ρ.code.size, s) (f, (if key.1 = v then q else ρ'.code.size : Nat), s) := by
  obtain ⟨_, ρ₁, h₁, h⟩ := bind_eq_ok_iff.1 h
  obtain ⟨index, ρ₂, h₂, h⟩ := bind_eq_ok_iff.1 h
  obtain ⟨_, ρ₃, h₃, h⟩ := bind_eq_ok_iff.1 h
  obtain ⟨_, ρ₄, h₄, h⟩ := bind_eq_ok_iff.1 h
  have htext : (pooling (Pool.str key.1) >>= loadConst) env ρ₁ = .ok ((), ρ₃) :=
    bind_eq_ok_iff.2 ⟨_, ρ₂, h₂, h₃⟩
  have e₁ := (Adds.load held h₁).1
  have e₃ : Emits ρ₁ ρ₃ :=
    (Adds.pooling (Pool.adds_str _) h₂).1.trans (Adds.of_straight (.loadConst index) h₃).1
  have e₄ : Emits ρ₃ ρ₄ := (Adds.of_straight (.invoke rfl _ _ _ _) h₄).1
  have hl₄ := e₄.label (e₃.label (e₁.label hl))
  have hρ₄ : Remains ρ₄ τ := (Remains.of_emits (branch_emits rfl hl₄ h)).trans hρ
  have hρ₃ : Remains ρ₃ τ := (Remains.of_emits e₄).trans hρ₄
  have hρ₁ : Remains ρ₁ τ := (Remains.of_emits e₃).trans hρ₃
  have hr₁ := hr.emits e₁
  have hr₃ := hr₁.emits e₃
  obtain ⟨q, hq, hbranch⟩ := heads_ifTrue hI hbuilt hfin (hr₃.emits e₄) hl₄ h hρ.code
  refine ⟨q, hq, ?_⟩
  rintro v ⟨r, L, st⟩ s hf
  obtain ⟨i, hi, hop, hnext, hmember⟩ := fetches_invoke hI hbuilt hfin hr₃ hf.pool hf.fits h₄ hρ₄
  have hload : Heads c table (⟨r, L, st⟩, ρ.code.size, s) (⟨r, L, .str v :: st⟩, ρ₁.code.size, s) :=
    heads_load hI hbuilt hfin hr h₁ hρ₁.code hf.held
  have hconst : Heads c table (⟨r, L, .str v :: st⟩, ρ₁.code.size, s)
      (⟨r, L, .str key.1 :: .str v :: st⟩, ρ₃.code.size, s) :=
    heads_text hI hbuilt hfin hr₁ hf.pool hf.fits htext hρ₃
  have hequals : Heads c table (⟨r, L, .str key.1 :: .str v :: st⟩, ρ₃.code.size, s)
      (⟨r, L, .ofBool (key.1 == v) :: st⟩, ρ₄.code.size, s) :=
    .of_fetches hi fun n depth => hnext ▸ Machine.step_equals hop hmember hf.texts v key.1
  refine hload.trans (hconst.trans (hequals.trans ?_))
  simpa using hbranch r L st s (key.1 == v)

/-- A text in a slot is compared with keys until one is equal to it. -/
lemma tryStrings_heads (hr : Ready ρ) (hk : ∀ k ∈ keys, k.2.id < ρ.code.labels.size)
    (hd : default.id < ρ.code.labels.size) (h : tryStrings held keys default env ρ = .ok (u, ρ'))
    (hρ : Remains ρ' τ) (v : String) :
    ∃ l q, Selects keys default v l ∧ ρ'.code.Referred l ∧ τ.code.position? l = some q ∧
      ∀ f s, Holds τ held.slot v f s → Heads c table (f, ρ.code.size, s) (f, q, s) := by
  induction keys generalizing ρ with
  | nil =>
    obtain ⟨_, ρ₁, h₁, h⟩ := bind_eq_ok_iff.1 h
    obtain ⟨-, rfl⟩ := pure_eq_ok_iff.1 h₁
    obtain ⟨q, hq, hgoto⟩ := heads_goto hI hbuilt hfin hr hd h hρ.code
    exact ⟨default, q, .inr ⟨by simp, rfl⟩, referred_of_branch hd h, hq, fun f s _ => hgoto f s⟩
  | cons key keys ih =>
    obtain ⟨_, ρ₁, h₁, h⟩ := bind_eq_ok_iff.1 h
    obtain ⟨_, ρ₂, h₂, h₁⟩ := bind_eq_ok_iff.1 h₁
    replace h : tryStrings held keys default env ρ₂ = .ok (u, ρ') := bind_eq_ok_iff.2 ⟨_, ρ₁, h₁, h⟩
    have hl := hk key mem_cons_self
    obtain ⟨e₂, href₂⟩ := tryString_emits hl h₂
    have hk₂ (k : String × Label) (hmem : k ∈ keys) : k.2.id < ρ₂.code.labels.size :=
      e₂.label (hk k (mem_cons_of_mem key hmem))
    have hρ₂ : Remains ρ₂ ρ' := .of_emits (tryStrings_emits hk₂ (e₂.label hd) h)
    obtain ⟨q, hq, hkey⟩ := tryString_heads hI hbuilt hfin hr hl h₂ (hρ₂.trans hρ)
    by_cases heq : key.1 = v
    · refine ⟨key.2, q, .inl (by simp [← heq]), hρ₂.code.referred href₂, hq, fun f s hf => ?_⟩
      have hgoes := hkey v f s hf
      rwa [if_pos heq] at hgoes
    · obtain ⟨l, q', hsel, href, hq', hrest⟩ := ih (hr.emits e₂) hk₂ (e₂.label hd) h
      refine ⟨l, q', hsel.cons heq, href, hq', fun f s hf => ?_⟩
      have hgoes := hkey v f s hf
      rw [if_neg heq] at hgoes
      exact hgoes.trans (hrest f s hf)

end

/-! ### Buckets -/

/-- What is laid out in order, each behind its label, where it only adds code to what is there. -/
lemma exists_laid {γ : Type} {ys : List (γ × Label)} {g : γ → Lower Unit} {n : Nat}
    (hg : ∀ y ∈ ys, ∀ σ u σ', n ≤ σ.code.labels.size → g y.1 env σ = .ok (u, σ') → Emits σ σ')
    (hn : n ≤ ρ.code.labels.size) (hl : ∀ y ∈ ys, y.2.id < n)
    (h : ys.forM (fun y => join y.2 >>= fun _ => g y.1) env ρ = .ok (u, ρ')) :
    Emits ρ ρ' ∧ ∀ y ∈ ys, ∃ first last, Emits ρ first ∧
    first.code.position? y.2 = some first.code.size ∧ g y.1 env first = .ok ((), last) ∧
    Emits first last ∧ Emits last ρ' := by
  induction ys generalizing ρ with
  | nil =>
    obtain ⟨-, rfl⟩ := pure_eq_ok_iff.1 h
    exact ⟨.refl ρ, by simp⟩
  | cons y ys ih =>
    obtain ⟨_, ρ₂, h₂, h⟩ := bind_eq_ok_iff.1 h
    obtain ⟨_, ρ₁, hjoin, h₂⟩ := bind_eq_ok_iff.1 h₂
    have e₁ := join_emits hjoin
    obtain ⟨hat, hsize, -⟩ := join_spec ((hl y mem_cons_self).trans_le hn) hjoin
    have hn₁ := hn.trans e₁.code.labels
    have e₂ := hg y mem_cons_self ρ₁ () ρ₂ hn₁ h₂
    obtain ⟨hrest, hlaid⟩ := ih (fun z hz => hg z (mem_cons_of_mem y hz)) (hn₁.trans e₂.code.labels)
      (fun z hz => hl z (mem_cons_of_mem y hz)) h
    refine ⟨e₁.trans (e₂.trans hrest), fun z hz => ?_⟩
    rcases mem_cons.1 hz with rfl | hz
    · exact ⟨ρ₁, ρ₂, e₁, by rw [hat, hsize], h₂, e₂, hrest⟩
    · obtain ⟨first, last, hfirst, hz⟩ := hlaid z hz
      exact ⟨first, last, e₁.trans (e₂.trans hfirst), hz⟩

lemma nodup_eraseDups {α : Type} [BEq α] [LawfulBEq α] (xs : List α) : xs.eraseDups.Nodup := by
  induction hn : xs.length using Nat.strong_induction_on generalizing xs with
  | _ n ih =>
    cases xs with
    | nil => simp
    | cons x xs =>
      have hlt : (xs.filter fun y => !y == x).length < n := by
        have := length_filter_le (fun y => !y == x) xs
        rw [length_cons] at hn
        omega
      rw [eraseDups_cons]
      exact nodup_cons.2 ⟨by simp, ih _ hlt _ rfl⟩

/-- The keys of a hash are all that a text with the hash may be equal to. -/
lemma Selects.of_filter (h : Selects (keys.filter fun k => Text.hash k.1 == Text.hash v) default v
    l) : Selects keys default v l := by
  refine h.imp (fun hmem => (mem_filter.1 hmem).1) fun ⟨hnone, hl⟩ => ⟨fun k hk heq => ?_, hl⟩
  exact hnone k (mem_filter.2 ⟨hk, by simp [heq]⟩) heq

namespace TextCourse

variable {T E : Set Label} {subject : Operand} {arms : List (Arm × Label)}
  (k : TextCourse T E env subject arms default σ ρ ρ')

/-- The cases of the dispatch on the hash. -/
def cases : List (Int × Label) := k.buckets.map fun b => (b.1.toInt, b.2)

lemma nodup_cases : (k.cases.map Prod.fst).Nodup := by
  have hmap : k.cases.map Prod.fst = (hashes k.keys).map Int32.toInt := by
    rw [cases, map_map, ← k.hashes_eq, map_map]
    rfl
  rw [hmap]
  exact (nodup_eraseDups _).map fun _ _ => Int32.toInt_inj.1

lemma mem_cases {h : Int32} {l : Label} : (h.toInt, l) ∈ k.cases ↔ (h, l) ∈ k.buckets := by
  simp [cases, Int32.toInt_inj]

/-- A text with a hash that no label stands with is no key. -/
lemma selects_default (h : ∀ c ∈ k.cases, c.1 ≠ (Text.hash v).toInt) :
    Selects k.keys default v default := by
  refine .inr ⟨fun key hkey heq => ?_, rfl⟩
  have hhash : Text.hash v ∈ k.buckets.map Prod.fst := by
    rw [k.hashes_eq, hashes, mem_eraseDups]
    exact mem_map.2 ⟨key, hkey, by rw [heq]⟩
  obtain ⟨b, hb, hbh⟩ := mem_map.1 hhash
  exact h (b.1.toInt, b.2) (mem_map.2 ⟨b, hb, rfl⟩) (by rw [hbh])

/-- The comparisons with the keys of each hash are behind its label. -/
lemma exists_bucket {b : Int32 × Label} (hb : b ∈ k.buckets) :
    ∃ first last, Emits k.switched first ∧ first.code.position? b.2 = some first.code.size ∧
    tryStrings k.held (k.keys.filter fun key => Text.hash key.1 == b.1) default env first =
    .ok ((), last) ∧ Emits first last ∧ Emits last ρ' := by
  have hknown {l : Label} (hl : l ∈ T ∨ l ∈ E) : l.id < k.switched.code.labels.size :=
    k.lays_switched.lt_of_mem (hl.imp_right fun hl => .inl (.inl hl))
  have hemits (b : Int32 × Label) (_ : b ∈ k.buckets) (θ : State) (u : Unit) (θ' : State)
      (hle : k.switched.code.labels.size ≤ θ.code.labels.size)
      (h : tryStrings k.held (k.keys.filter fun key => Text.hash key.1 == b.1) default env θ =
        .ok (u, θ')) :
      Emits θ θ' := by
    refine tryStrings_emits (fun key hkey => ?_) ((hknown k.default_mem).trans_le hle) h
    exact (hknown (k.keys_mem key (mem_filter.1 hkey).1)).trans_le hle
  refine (exists_laid (g := fun h =>
    tryStrings k.held (k.keys.filter fun key => Text.hash key.1 == h) default) hemits le_rfl
    (fun y hy => ?_) k.compares).2 b hb
  exact k.lays_switched.lt_of_mem (.inr (.inl (.inr (mem_map_of_mem hy))))

lemma remains_hashed : Remains k.hashed ρ' := by
  have hlabels : Follows k.hashed k.labelled := .of_labels k.labels
  exact .of_follows (hlabels.trans (k.follows.trans k.compared.2))

lemma remains_loaded : Remains k.loaded ρ' :=
  (Remains.of_emits (Adds.of_straight (.invoke rfl _ _ _ _) k.calls).1).trans k.remains_hashed

/-- The slot is one of those that the method has. -/
lemma slot_lt {c : CodeAttribute} (hρ : Remains ρ' τ) (hc : τ.maxLocals ≤ c.maxLocals.toNat)
    {f : Machine.Frame} (hf : Hosts τ.pool c f) : k.held.slot < f.locals.size := by
  have hle : k.tested.maxLocals ≤ τ.maxLocals := (k.follows_tested.supply.trans hρ.supply).locals
  exact k.room.trans_le ((hle.trans hc).trans hf.locals)

/-! What a run does: the subject is kept in its slot, and the hash is taken of it. -/

section

variable {bs : Bytes} {rows : List ExceptionEntry} {c : CodeAttribute} {table : Array (Option Insn)}
  {live : Nat → Prop} (hσ : σ.code.Built) (hp : σ.pool.Coherent) (hsize : ρ'.code.size ≤ 65535)
  (hI : Image τ.code rows c table live) (hbuilt : τ.code.Built)
    (hfin : τ.code.finish = .ok (bs, rows))
  (hρ : Remains ρ' τ) (hc : τ.maxLocals ≤ c.maxLocals.toNat) {st : List Value} {s : Machine.State}

include hσ hp hsize

lemma ready_tested : Ready k.tested :=
  ⟨(k.lays_tested.built (k.follows_tested.appends.size.trans hsize) hσ).laid,
    k.lays_tested.supply.coherent hp⟩

lemma ready_loaded : Ready k.loaded :=
  ((k.ready_tested hσ hp hsize).emits (Adds.store k.held k.stores).1).emits
    (Adds.load k.held k.loads).1

lemma ready_switched : Ready k.switched :=
  ⟨(k.lays_switched.built (k.compared.2.appends.size.trans hsize) hσ).laid,
    k.lays_switched.supply.coherent hp⟩

include hI hbuilt hfin hρ

omit hp in
/-- The dispatch on the hash goes to the label of the hash. -/
lemma exists_switch (h : Int32) : k.labelled.code.size < k.switched.code.size ∧ ∃ l q,
    Selects k.cases default h.toInt l ∧ k.switched.code.Referred l ∧ τ.code.position? l = some q ∧
      Consumes c table h k.labelled.code.size q := by
  have hle : k.labelled.code.size ≤ 65535 := (k.follows.trans k.compared.2).appends.size.trans hsize
  refine intSwitch_leads hI hbuilt hfin (bounds_buckets k.buckets) k.nodup_cases ?_ (fun d hd => ?_)
    (k.lays_labelled.built hle hσ).laid.size k.switches (k.compared.2.code.keeps.trans hρ.code) h
  · exact k.lays_labelled.lt_of_mem (k.default_mem.imp_right fun hl => .inl (.inl hl))
  · obtain ⟨b, hb, rfl⟩ := mem_map.1 hd
    exact k.lays_labelled.lt_of_mem (.inr (.inl (.inr (mem_map.2 ⟨b, hb, rfl⟩))))

omit hp in
lemma tested_lt : k.tested.code.size < ρ'.code.size := by
  have hlt := (k.exists_switch hσ hsize hI hbuilt hfin hρ 0).1
  have hle := k.enters.appends.size
  have hle' := k.compared.2.appends.size
  omega

include hc

/-- The subject is put into its slot and taken from there again. -/
lemma heads_loaded {r : Machine.Routine} {L : Array Value} {w : Value}
    (hf : Hosts τ.pool c ⟨r, L, w :: st⟩) : Heads c table (⟨r, L, w :: st⟩, k.tested.code.size, s)
      (⟨r, L.setIfInBounds k.held.slot w, w :: st⟩, k.loaded.code.size, s) := by
  have hslot : k.held.slot < L.size := k.slot_lt hρ hc hf
  have hr := k.ready_tested hσ hp hsize
  have hloaded := k.remains_loaded.trans hρ
  have hstored := (Remains.of_emits (Adds.load k.held k.loads).1).trans hloaded
  have hstore : Heads c table (⟨r, L, w :: st⟩, k.tested.code.size, s)
      (⟨r, L.setIfInBounds k.held.slot w, st⟩, k.stored.code.size, s) :=
    heads_store hI hbuilt hfin hr k.stores hstored.code hslot
  refine hstore.trans (heads_load hI hbuilt hfin (hr.emits (Adds.store k.held k.stores).1) k.loads
    hloaded.code ?_)
  simp [hslot]

/-- There is no hash of null. -/
lemma raises_null {f : Machine.Frame} (hf : Hosts τ.pool c f) (hst : f.stack = .null :: st) :
    Raises c table (f, k.tested.code.size, s) "java/lang/NullPointerException" := by
  obtain ⟨r, L, _⟩ := f
  obtain rfl := hst
  intro hx
  have hloaded := k.heads_loaded hσ hp hsize hI hbuilt hfin hρ hc (s := s) hf
  obtain ⟨i, hi, hop, -, hmember⟩ :=
    fetches_invoke hI hbuilt hfin (k.ready_loaded hσ hp hsize) hf.pool hf.fits k.calls
    (k.remains_hashed.trans hρ)
  refine ⟨_, i, hloaded hx, hi _ _ (hloaded.visited hx), fun inv => ?_⟩
  obtain ⟨id, o, s', hstep, ho⟩ := Machine.step_hash_null hop hmember
  exact ⟨id, o, _, s', hstep, ho⟩

/-- The label that a text is dispatched to is that of the key that is equal to it. -/
lemma exists_selected (v : String) :
    ∃ l q, Selects k.keys default v l ∧ ρ'.code.Referred l ∧ τ.code.position? l = some q ∧
    ∀ f s st, Hosts τ.pool c f → s.PlainTexts → f.stack = .str v :: st →
    Heads c table (f, k.tested.code.size, s)
    ({ f with locals := f.locals.setIfInBounds k.held.slot (.str v), stack := st }, q, s) := by
  obtain ⟨-, l, q, hsel, href, hq, hconsumes⟩ :=
    k.exists_switch hσ hsize hI hbuilt hfin hρ (Text.hash v)
  -- Wherever the hash leads, the subject is in its slot then.
  have hhash (f : Machine.Frame) (s : Machine.State) (st : List Value) (hf : Hosts τ.pool c f)
      (hs : s.PlainTexts) (hst : f.stack = .str v :: st) : Heads c table (f, k.tested.code.size, s)
        ({ f with locals := f.locals.setIfInBounds k.held.slot (.str v), stack := st }, q, s) := by
    obtain ⟨r, L, _⟩ := f
    obtain rfl := hst
    obtain ⟨i, hi, hop, hnext, hmember⟩ :=
      fetches_invoke hI hbuilt hfin (k.ready_loaded hσ hp hsize) hf.pool hf.fits
      k.calls (k.remains_hashed.trans hρ)
    have hcall : Heads c table (⟨r, L.setIfInBounds k.held.slot (.str v), .str v :: st⟩,
        k.loaded.code.size, s) (⟨r, L.setIfInBounds k.held.slot (.str v), .int (Text.hash v) :: st⟩,
          k.hashed.code.size, s) :=
      .of_fetches hi fun n depth => hnext ▸ Machine.step_hash hop hmember hs v
    rw [← (labels_emit k.labels).2.2] at hcall
    exact (k.heads_loaded hσ hp hsize hI hbuilt hfin hρ hc hf).trans
      (hcall.trans (.of_consumes hconsumes rfl))
  rcases hsel with hmem | ⟨hnone, rfl⟩
  · obtain ⟨first, last, hfirst, hat, hdone, hemits, hlast⟩ := k.exists_bucket (k.mem_cases.1 hmem)
    have hknown {l : Label} (hl : l ∈ T ∨ l ∈ E) : l.id < first.code.labels.size :=
      hfirst.label (k.lays_switched.lt_of_mem (hl.imp_right fun hl => .inl (.inl hl)))
    have hlast' : Remains last τ := (Remains.of_emits hlast).trans hρ
    obtain ⟨l', q', hsel', href', hq', hgoes⟩ := tryStrings_heads hI hbuilt hfin
      ((k.ready_switched hσ hp hsize).emits hfirst)
      (fun key hkey => hknown (k.keys_mem key (mem_filter.1 hkey).1)) (hknown k.default_mem) hdone
        hlast' v
    have hstart : τ.code.position? l = some first.code.size :=
      hlast'.code.position (hemits.code.position hat)
    obtain rfl : first.code.size = q := Option.some.inj (hstart.symm.trans hq)
    refine ⟨l', q', hsel'.of_filter, hlast.code.referred href', hq', fun f s st hf hs hst => ?_⟩
    refine (hhash f s st hf hs hst).trans (hgoes _ s ⟨hf.pool, hf.fits, hs, ?_⟩)
    have hslot := k.slot_lt hρ hc hf
    simp [hslot]
  · exact ⟨l, q, k.selects_default hnone, k.compared.2.code.keeps.referred href, hq, hhash⟩

end

end TextCourse

/-! ### Keys of one hash -/

/-- A switch whose keys have the same hash. -/
def spelling : Switch :=
  .stmt (.param "word" .string)
    [.mk [.const (.str "Aa")] (.ret (.const (.int 1))),
      .mk [.const (.str "BB")] (.ret (.const (.int 2)))]
    (.ret (.const (.int 0)))

/-- A method with that switch. -/
def spell : Method where
  name := "spell"
  modifiers := [.static]
  params := [⟨"word", .string, []⟩]
  ret := .prim .int
  body :=
    [.select (.param "word" .string) [.mk [.const (.str "Aa")] (.ret (.const (.int 1))),
      .mk [.const (.str "BB")] (.ret (.const (.int 2)))] (.ret (.const (.int 0)))]

def spellEnv : Env := .alone "Words" spell

/-- The pool of the method when it has its first constants. -/
def spellPool (n : Nat) : Pool :=
  .ofEntries ([.utf8 "java/lang/String", .cls 1, .utf8 "hashCode", .utf8 "()I", .nameAndType 3 4,
    .method 2 5, .utf8 "Aa", .str 7, .utf8 "equals", .utf8 "(Ljava/lang/Object;)Z",
    .nameAndType 9 10, .method 2 11, .utf8 "BB", .str 13].take n)

lemma spellPool_adds : Pool.method "java/lang/String" "hashCode" "()I" false (spellPool 0) =
    (6, spellPool 6) ∧ Pool.str "Aa" (spellPool 6) = (8, spellPool 8) ∧
    Pool.method "java/lang/String" "equals" "(Ljava/lang/Object;)Z" false (spellPool 8) =
    (12, spellPool 12) ∧ Pool.str "BB" (spellPool 12) = (14, spellPool 14) ∧
    Pool.method "java/lang/String" "equals" "(Ljava/lang/Object;)Z" false (spellPool 14) =
    (12, spellPool 14) := by
  refine ⟨?_, ?_, ?_, ?_, ?_⟩ <;>
    simp [Pool.method, Pool.str, Pool.cls, Pool.nameAndType, Pool.utf8, Pool.add, Pool.ofEntries,
      spellPool, bind, StateT.bind, Std.HashMap.getElem?_insert, -getElem?_pos, Pool.count,
      Entry.slots, Entry.isWide, Pool.limit]

/-- The variable that the dispatch makes up. -/
def spellHeld : Local := ⟨"$" ++ "switch" ++ toString 0, 1, .string⟩

/-- The scopes and slots of the method in the dispatch before and after the variable, and behind
it. -/
def spellOpened : State := { State.bare 1 with scopes := [{ base := 1 }, { base := 1 }] }

def spellInner : State :=
  { State.bare 1 with
    scopes := [⟨[spellHeld], 1⟩, { base := 1 }], next := 2, maxLocals := 2, names := 1 }

def spellBehind : State := { State.bare 1 with maxLocals := 2, names := 1 }

section

variable {p : Pool} {code : Code}

lemma toOption_subject : ((operand (.param "word" .string)).as .string spellEnv
    (spellInner.put code p)).toOption = (code.emitLocal (Action.load .ref).opcode 0).toOption.map
    fun c => ((), spellInner.put c p) := by
  have hparam : (param? "word" spellEnv (spellInner.put code p)).toOption =
      some (some ⟨"word", 0, .string⟩, spellInner.put code p) := rfl
  have hcoerce (c : Code) : (coerce .string .string spellEnv (spellInner.put c p)).toOption =
      some ((), spellInner.put c p) := rfl
  simp only [operand, variableOperand, ofTarget, ofValue, Operand.as, load, toOption_bind,
    toOption_placed, toOption_pure, toOption_onCode?, hparam, hcoerce, Option.bind_some,
    Option.map_eq_bind, Option.bind_assoc, Function.comp_def]
  rfl

/-- One key is dense. -/
lemma toOption_intSwitch (l default : Label) :
    (intSwitch [((2112 : Int32).toInt, l)] default spellEnv (spellInner.put code p)).toOption =
      (code.emitTable 2112 2112 default [l]).toOption.map fun c => ((), spellInner.put c p) := by
  have hdense : isDense spellEnv.unit.tableDensity 1 1 = true := by decide +kernel
  simp only [intSwitch, mergeSort_singleton, head?_cons, getLast?_singleton, toOption_bind,
    toOption_read, Option.bind_some, length_singleton, Int32.reduceToInt, Int.reduceSub,
    Int.reduceAdd]
  rw [if_pos (by rw [hdense]; rfl), toOption_onCode?]
  rfl

end

/-- The dispatch is where the method asks for its constants; what comes behind it needs none. -/
lemma lower_spell : (lower spellEnv.unit spell .empty).toOption.isSome := by
  obtain ⟨hhashCode, hfirst, hequals, hsecond, hequals'⟩ := spellPool_adds
  have hdispatch (arms : List (Arm × Label)) (default : Label) (σ : State) :
      dispatch (operand (.param "word" .string)) arms default spellEnv σ =
        stringDispatch (operand (.param "word" .string)) arms default spellEnv σ := rfl
  have hkeys (b₁ b₂ : Lower Unit) (l₁ l₂ : Label) (σ : State) :
      (stringKeys [] (labelKeys [(⟨[.const (.str "Aa")], b₁⟩, l₁),
        (⟨[.const (.str "BB")], b₂⟩, l₂)]) spellEnv σ).toOption =
        some ([("BB", l₂), ("Aa", l₁)], σ) := rfl
  have hpush (c : Code) (p : Pool) :
      (pushScope spellEnv ((State.bare 1).put c p)).toOption = some ((), spellOpened.put c p) := rfl
  have htemp (c : Code) (p : Pool) :
      (temp "switch" .string spellEnv (spellOpened.put c p)).toOption =
      some (spellHeld, spellInner.put c p) := rfl
  have hpop (c : Code) (p : Pool) :
      (popScope spellEnv (spellInner.put c p)).toOption = some ((), spellBehind.put c p) := rfl
  -- The keys are in one bucket, where each is compared.
  have hhash : Text.hash "Aa" = 2112 ∧ Text.hash "BB" = 2112 := by decide +kernel
  have hhashes (l₁ l₂ : Label) : hashes [("Aa", l₁), ("BB", l₂)] = [2112] := by
    simp only [hashes, map_cons, map_nil, hhash]
    decide
  have hbucket (l₁ l₂ : Label) :
      [("Aa", l₁), ("BB", l₂)].filter (fun k => Text.hash k.1 == 2112) =
        [("Aa", l₁), ("BB", l₂)] := by
    simp [hhash]
  have hbody : (methodBody spell spellEnv
      ((State.bare 1).put {} (spellPool 0))).toOption.isSome := by
    rw [methodBody, toOption_bind, spell, statements, toOption_bind, statement, toOption_placed,
      select, toOption_bind]
    simp only [stmtArms, Stmt.isAbsent, Bool.false_eq_true, if_false, mapM_cons, mapM_nil, newLabel,
      toOption_bind, toOption_withCode, toOption_pure, Option.bind_some]
    simp only [inScope, hpush, hpop, hdispatch, stringDispatch, hkeys, htemp, toOption_subject,
      store, load, invokeVirtual, invoke, emitShort, hhashCode, hhashes, newLabel,
      toOption_intSwitch, join, hbucket, tryString, hfirst, hequals, hsecond, hequals',
      toOption_loadConst, branch, toOption_bind, toOption_pure, toOption_onCode, toOption_onCode?,
      toOption_withCode, toOption_pooling, reverse_cons, reverse_nil, nil_append, singleton_append,
      mapM_cons, mapM_nil, map_cons, map_nil, forM_eq_forM, forM_cons, forM_nil, Option.bind_some,
      Option.bind_map, Option.bind_assoc, Function.comp_def]
    -- The constants are known by now; only code is left to evaluate.
    decide +kernel
  rw [toOption_lower, Option.isSome_map]
  exact hbody

/-! ### Switches -/

/-- A value that is dispatched on as a text. -/
def TextSubject (e : Expr) : Prop := ∃ ty, e.type = .ok ty ∧ ty.descriptor = Ty.string.descriptor

/-- A text is no number, and no box of one. -/
lemma unboxed?_of_text {e : Erased} (h : e.descriptor = Ty.string.descriptor) :
    unboxed? e.toTy = none := by
  cases e with
  | prim p => cases p <;> exact absurd h (by decide)
  | array of dims => rfl
  | cls t =>
    by_contra hne
    obtain ⟨p, hp⟩ := Option.ne_none_iff_exists'.1 hne
    have hname : p.wrapper?.map (·.name) = some t.name := by simpa using find?_some hp
    have hdesc : Erased.descriptor (.cls t) = "L" ++ internalOfBinary t.name ++ ";" := rfl
    rw [hdesc] at h
    cases p <;> first
      | cases hname
      | rw [← Option.some.inj hname] at h; exact absurd h (by decide)

lemma dispatch_eq_ok_of_text {subject : Operand} {arms : List (Arm × Label)}
    (htext : TextSubject subject.term) (h : dispatch subject arms default env σ = .ok (u, σ')) :
    stringDispatch subject arms default env σ = .ok (u, σ') := by
  obtain ⟨ty, hty, hdesc⟩ := htext
  obtain ⟨t, τ, ht, h⟩ := bind_eq_ok_iff.1 h
  obtain ⟨htype, rfl⟩ := sound_eq_ok_iff.1 ht
  obtain rfl := Except.ok.inj (hty.symm.trans htype)
  replace hdesc : ty.erase.descriptor = Ty.string.descriptor := hdesc
  rw [unboxed?_of_text hdesc] at h
  dsimp only at h
  rwa [if_pos (by simp [hdesc])] at h

section

variable {T : Set Label} {subject : Operand} {arms : List Arm} {other : Option (Lower Unit)}
  (k : Course T env subject arms other σ σ') (hs : subject.Tidy env)

include hs

/-- The dispatch of a switch on a text. The scope around it leaves code and constants as they
are. -/
lemma Course.exists_textCourse (htext : TextSubject subject.term) :
    ∃ ρ ρ', ρ.next = σ.next ∧
    Nonempty (TextCourse T (insert k.stop (insert k.other k.labels)) env subject k.labelled k.other
    σ ρ ρ') ∧ ρ'.code = k.dispatched.code ∧ Remains ρ' k.dispatched := by
  obtain ⟨_, ρ, hpush, w, h⟩ := k.begins.run_bind (X := ∅) .pushScope (by simp) k.dispatches
  obtain ⟨_, ρ', hdispatch, hpop⟩ := bind_eq_ok_iff.1 h
  have hnext : ρ.next = σ.next := by
    rw [← k.next_eq, ← modify_eq_ok_iff.1 hpush]
  have hpopped : k.dispatched.code = ρ'.code ∧ k.dispatched.pool = ρ'.pool ∧
      k.dispatched.maxLocals = ρ'.maxLocals := by
    rw [← modify_eq_ok_iff.1 hpop]
    split <;> exact ⟨rfl, rfl, rfl⟩
  obtain ⟨hcode, hpool, hlocals⟩ := hpopped
  refine ⟨ρ, ρ', hnext, ?_, hcode.symm, hcode ▸ .refl _, .of_eq hpool hlocals⟩
  refine stringDispatch_eq_ok w (hs.as _) (.inr (.inr (.inl rfl)))
    (fun a ha => .inr (.inr (.inr ?_))) (dispatch_eq_ok_of_text htext hdispatch)
  exact mem_map_of_mem ha

end

/-- A run of a method that is started with the constants of a pool and comes to `p` with a text on
the stack puts the text into a slot and goes on to `q`. Nothing else changes. -/
def TakesText (c : CodeAttribute) (table : Array (Option Insn)) (pool : Pool) (slot : Nat)
    (v : String) (p q : Nat) : Prop :=
  ∀ f₀ s₀ f s st, Hosts pool c f₀ →
    Relation.ReflTransGen (Goes c.handlers table) (f₀, 0, s₀) (f, p, s) →
    s.PlainTexts → f.stack = .str v :: st →
    Relation.TransGen (Proceeds c.handlers table) (f, p, s)
      ({ f with locals := f.locals.setIfInBounds slot (.str v), stack := st }, q, s)

/-- A run of such a method that comes to `p` with null on the stack throws. -/
def RefusesNull (c : CodeAttribute) (table : Array (Option Insn)) (pool : Pool) (p : Nat) : Prop :=
  ∀ f₀ s₀ f s st, Hosts pool c f₀ →
    Relation.ReflTransGen (Goes c.handlers table) (f₀, 0, s₀) (f, p, s) →
    f.stack = .null :: st → Raises c table (f, p, s) "java/lang/NullPointerException"

end Lowering

end Classwright
