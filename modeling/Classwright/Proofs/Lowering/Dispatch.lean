import Classwright.Proofs.Lowering.Operands

/-!
Dispatch on integers.

The keys of a switch are sorted and become a table with the default in its gaps, or pairs that are
searched. Either way, the instruction goes to the label of the key that is the value, and to the
default if there is none (`Selects`).
-/

namespace Classwright

open List
open Machine (switchTarget)

/-- The value of an integral constant. -/
def Expr.intValue? : Expr → Option Int
  | .const ⟨_, .int v⟩ => some v.toInt
  | _ => none

/-- The text of a constant. -/
def Expr.text? : Expr → Option String
  | .const ⟨_, .str s⟩ => some s
  | _ => none

namespace Lowering

variable {env : Env} {σ σ' : State} {cases : List (Int × Label)} {default l : Label}
  {v low high : Int} {u : Unit} {arms : List (Arm × Label)}

/-! ### Keys -/

/-- The values that an arm is for. -/
def Arm.values (a : Arm) : List Int := a.keys.filterMap Expr.intValue?

/-- Keys and labels with the keys evaluated: no two are the same, and all are values of `int`. -/
structure Keyed (keys : List (Expr × Label)) (cases : List (Int × Label)) : Prop where
  values : keys.map (fun k => (k.1.intValue?, k.2)) = cases.map fun c => (some c.1, c.2)
  bounds : ∀ c ∈ cases, -2147483648 ≤ c.1 ∧ c.1 ≤ 2147483647
  distinct : (cases.map Prod.fst).Nodup

lemma intKey_eq_ok {key : Expr} (h : intKey key env σ = .ok (v, σ')) :
    σ = σ' ∧ key.intValue? = some v ∧ -2147483648 ≤ v ∧ v ≤ 2147483647 := by
  unfold intKey at h
  split at h
  · split_ifs at h with hb
    · exact absurd h mismatch_ne_ok
    · obtain ⟨rfl, rfl⟩ := pure_eq_ok_iff.1 h
      exact ⟨rfl, rfl, by omega, by omega⟩
  · exact absurd h mismatch_ne_ok

/-- A key that is new, before others that are. -/
lemma distinct_cons {κ : Type} [BEq κ] [LawfulBEq κ] {k : κ × Label} {done cases : List (κ × Label)}
    (hk : ¬ done.any (·.1 == k.1)) (hcases : (cases.map Prod.fst).Nodup)
    (hnew : ∀ c ∈ cases, ∀ d ∈ k :: done, c.1 ≠ d.1) :
    ((k :: cases).map Prod.fst).Nodup ∧ ∀ c ∈ k :: cases, ∀ d ∈ done, c.1 ≠ d.1 := by
  simp only [map_cons, nodup_cons, mem_map, forall_mem_cons, forall_and] at hnew ⊢
  refine ⟨⟨fun ⟨c, hc, heq⟩ => hnew.1 c hc heq, hcases⟩,
    fun d hd heq => hk (any_eq_true.2 ⟨d, hd, ?_⟩), hnew.2⟩
  exact beq_iff_eq.2 heq.symm

lemma intKeys_eq_ok {keys : List (Expr × Label)} {done all : List (Int × Label)}
    (h : intKeys done keys env σ = .ok (all, σ')) : σ = σ' ∧ ∃ cases, all = cases.reverse ++ done ∧
      Keyed keys cases ∧ ∀ c ∈ cases, ∀ d ∈ done, c.1 ≠ d.1 := by
  induction keys generalizing done σ with
  | nil =>
    obtain ⟨rfl, rfl⟩ := pure_eq_ok_iff.1 h
    exact ⟨rfl, [], rfl, ⟨rfl, by simp, .nil⟩, by simp⟩
  | cons k keys ih =>
    obtain ⟨v, τ, hv, h⟩ := bind_eq_ok_iff.1 h
    obtain ⟨rfl, hvalue, hbounds⟩ := intKey_eq_ok hv
    split_ifs at h with hdone
    · obtain ⟨_, _, h, -⟩ := bind_eq_ok_iff.1 h
      exact absurd h fail_ne_ok
    · obtain ⟨rfl, cases, rfl, hkeyed, hnew⟩ := ih h
      obtain ⟨hdistinct, hnew⟩ := distinct_cons hdone hkeyed.distinct hnew
      refine ⟨rfl, (v, k.2) :: cases, by simp, ⟨?_, ?_, hdistinct⟩, hnew⟩
      · simp [hvalue, hkeyed.values]
      · simpa using ⟨hbounds, fun v l hc => hkeyed.bounds (v, l) hc⟩

/-- The keys that labels stand with are those of their arms. -/
lemma mem_iff_of_labelKeys {κ : Type} {value? : Expr → Option κ} {cases : List (κ × Label)} {v : κ}
    (h : (labelKeys arms).map (fun k => (value? k.1, k.2)) = cases.map fun c => (some c.1, c.2)) :
    (v, l) ∈ cases ↔ ∃ arm, (arm, l) ∈ arms ∧ v ∈ arm.keys.filterMap value? := by
  have hmem : (v, l) ∈ cases ↔ (some v, l) ∈ cases.map fun c => (some c.1, c.2) := by simp
  rw [hmem, ← h]
  simp only [labelKeys, mem_map, mem_flatMap, mem_filterMap, Prod.mk.injEq]
  constructor
  · rintro ⟨k, ⟨⟨arm, l'⟩, harm, key, hkey, rfl⟩, hv, rfl⟩
    exact ⟨arm, harm, key, hkey, hv⟩
  · rintro ⟨arm, harm, key, hkey, hv⟩
    exact ⟨(key, l), ⟨(arm, l), harm, key, hkey, rfl⟩, hv, rfl⟩

lemma Keyed.mem_iff (h : Keyed (labelKeys arms) cases) :
    (v, l) ∈ cases ↔ ∃ arm, (arm, l) ∈ arms ∧ v ∈ arm.values := mem_iff_of_labelKeys h.values

/-! ### Tables -/

/-- A value goes to the label of its key, or to the default. -/
def Selects {κ : Type} (cases : List (κ × Label)) (default : Label) (v : κ) (l : Label) : Prop :=
  (v, l) ∈ cases ∨ (∀ c ∈ cases, c.1 ≠ v) ∧ l = default

lemma Selects.perm {cases' : List (Int × Label)} (hp : cases'.Perm cases)
    (h : Selects cases' default v l) : Selects cases default v l :=
  h.imp hp.mem_iff.1 fun ⟨hv, hl⟩ => ⟨fun c hc => hv c (hp.mem_iff.2 hc), hl⟩

/-- The targets of a table from `next` on. -/
def targetsFrom (default : Label) (next : Int) : List (Int × Label) → List Label
  | [] => []
  | (k, l) :: cases => replicate (k - next).toNat default ++ l :: targetsFrom default (k + 1) cases

lemma tableTargets_eq : tableTargets default low cases = targetsFrom default low cases := by
  have hfold (next : Int) (done : List Label) :
      (cases.foldl (fun x c => (c.1 + 1, c.2 :: (replicate (c.1 - x.1).toNat default ++ x.2)))
        (next, done)).2.reverse =
      done.reverse ++ targetsFrom default next cases := by
    induction cases generalizing next done with
    | nil => simp [targetsFrom]
    | cons c cases ih => simp [ih, targetsFrom]
  exact hfold low []

lemma mem_of_mem_targetsFrom {next : Int} (h : l ∈ targetsFrom default next cases) :
    l = default ∨ ∃ c ∈ cases, c.2 = l := by
  induction cases generalizing next with
  | nil => simp [targetsFrom] at h
  | cons c cases ih =>
    rcases mem_append.1 h with h | h
    · exact .inl (eq_of_mem_replicate h)
    · rcases mem_cons.1 h with rfl | h
      · exact .inr ⟨c, mem_cons_self, rfl⟩
      · exact (ih h).imp_right fun ⟨d, hd, hl⟩ => ⟨d, mem_cons_of_mem c hd, hl⟩

/-- The entry of a table for a value. The keys ascend, so that the gap before the first of them has
no other key in it. -/
lemma selects_of_targetsFrom {next : Int} {n : Nat} (hs : cases.Pairwise fun c d => c.1 < d.1)
    (hnext : ∀ c ∈ cases, next ≤ c.1) (h : (targetsFrom default next cases)[n]? = some l) :
    Selects cases default (next + n) l := by
  induction cases generalizing next n with
  | nil => simp [targetsFrom] at h
  | cons c cases ih =>
    obtain ⟨k, l'⟩ := c
    obtain ⟨hlt, hs⟩ := pairwise_cons.1 hs
    have hk : next ≤ k := hnext (k, l') mem_cons_self
    rw [targetsFrom, getElem?_append, length_replicate] at h
    split_ifs at h with hgap
    · obtain rfl := eq_of_mem_replicate (mem_of_getElem? h)
      refine .inr ⟨fun d hd => ?_, rfl⟩
      rcases mem_cons.1 hd with rfl | hd
      · dsimp only
        omega
      · have := hlt d hd
        dsimp only at this
        omega
    · obtain ⟨m, hm⟩ : ∃ m, n = (k - next).toNat + m := ⟨n - (k - next).toNat, by omega⟩
      have hsub : n - (k - next).toNat = m := by omega
      rw [hsub] at h
      cases m with
      | zero =>
        obtain rfl : l' = l := by simpa using h
        exact .inl (mem_cons.2 (.inl (by rw [show next + n = k by omega])))
      | succ m =>
        rw [getElem?_cons_succ] at h
        have hv : next + (n : Int) = k + 1 + m := by omega
        rw [hv]
        refine (ih hs (fun d hd => ?_) h).imp (mem_cons_of_mem _) fun ⟨hne, hl⟩ =>
          ⟨fun d hd => ?_, hl⟩
        · have := hlt d hd
          dsimp only at this
          omega
        · rcases mem_cons.1 hd with rfl | hd
          · dsimp only
            omega
          · exact hne d hd

/-! ### Instructions -/

section

variable {position? : Label → Option Nat} {i : Insn} {ts : List Nat} {targets : List Label}

/-- A jump table goes to the first target whose key is the value. -/
lemma switchTarget_cases (i : Insn) (v : Int32) :
    (v.toInt, switchTarget i v) ∈ i.keys.zip i.targets ∨
    (∀ p ∈ i.keys.zip i.targets, p.1 ≠ v.toInt) ∧ switchTarget i v = i.default := by
  have heq : switchTarget i v =
      (((i.keys.zip i.targets).find? fun p => p.1 == v.toInt).map (·.2)).getD i.default := rfl
  rw [heq]
  cases hfind : (i.keys.zip i.targets).find? fun p => p.1 == v.toInt with
  | none => exact .inr ⟨fun p hp => by simpa using find?_eq_none.1 hfind p hp, rfl⟩
  | some p =>
    have hp : p.1 = v.toInt := by simpa using find?_some hfind
    exact .inl (hp ▸ mem_of_find?_eq_some hfind)

lemma exists_target (hts : targets.map position? = ts.map some) {n : Nat} {t : Int}
    (ht : (ts.map Int.ofNat)[n]? = some t) :
    ∃ (l : Label) (q : Nat), targets[n]? = some l ∧ position? l = some q ∧ t = q := by
  obtain ⟨q, hq, rfl⟩ := Option.map_eq_some_iff.1 (getElem?_map .. ▸ ht)
  have hmap : (targets.map position?)[n]? = some (some q) := by
    rw [hts, getElem?_map, hq, Option.map_some]
  obtain ⟨l, hl, hlq⟩ := Option.map_eq_some_iff.1 (getElem?_map .. ▸ hmap)
  exact ⟨l, q, hl, hlq, rfl⟩

/-- A jump table whose keys and targets are in line. -/
lemma exists_selects {K : List Int} {d : Nat} (hlen : K.length = targets.length)
    (hkeys : i.keys = K) (htargets : i.targets = ts.map Int.ofNat) (hdefault : i.default = d)
    (hd : position? default = some d) (hts : targets.map position? = ts.map some)
    (hsel : ∀ (n : Nat) (k : Int) (l : Label), K[n]? = some k → targets[n]? = some l →
    Selects cases default k l) (hall : ∀ c ∈ cases, c.1 ∈ K) (v : Int32) :
    ∃ l ∈ default :: targets, ∃ q : Nat, Selects cases default v.toInt l ∧ position? l = some q ∧
    switchTarget i v = q := by
  have hsize : targets.length = ts.length := by simpa using congrArg length hts
  rcases switchTarget_cases i v with hmem | ⟨hnone, heq⟩
  · obtain ⟨n, hn⟩ := mem_iff_getElem?.1 hmem
    obtain ⟨hk, ht⟩ := getElem?_zip_eq_some.1 hn
    rw [htargets] at ht
    obtain ⟨l, q, hl, hq, ht⟩ := exists_target hts ht
    exact ⟨l, mem_cons_of_mem _ (mem_of_getElem? hl), q, hsel n _ l (hkeys ▸ hk) hl, hq, ht⟩
  · refine ⟨default, mem_cons_self, d, .inr ⟨fun c hc hcv => ?_, rfl⟩, hd, heq.trans hdefault⟩
    obtain ⟨n, hn⟩ := mem_iff_getElem?.1 (hall c hc)
    have hlt : n < (ts.map Int.ofNat).length := by
      rw [length_map, ← hsize, ← hlen]
      exact (List.getElem?_eq_some_iff.1 hn).1
    refine hnone (c.1, (ts.map Int.ofNat)[n]) (mem_iff_getElem?.2 ⟨n, ?_⟩) hcv
    rw [getElem?_zip_eq_some, hkeys, htargets]
    exact ⟨hn, getElem?_eq_getElem hlt⟩

end

/-- The instruction that is decoded for an emitted one goes where the cases say. -/
def Dispatches (e : Emission) (cases : List (Int × Label)) (default : Label) : Prop :=
  ∀ (position? : Label → Option Nat) (i : Insn), e.Yields position? i →
    (i.op.action? = some .tableSwitch ∨ i.op.action? = some .lookupSwitch) ∧
      ∀ v : Int32, ∃ l ∈ e.labels, ∃ q : Nat, Selects cases default v.toInt l ∧
        position? l = some q ∧
        switchTarget i v = q

lemma dispatches_lookup (hb : ∀ c ∈ cases, -2147483648 ≤ c.1 ∧ c.1 ≤ 2147483647) :
    Dispatches (.lookup default (cases.map fun c => Int32.ofInt c.1) (cases.map Prod.snd))
    cases default := by
  rintro position? i ⟨d, ts, hd, hts, hi⟩
  have hkeys : i.keys = cases.map Prod.fst := by
    rw [hi, map_map]
    exact map_congr_left fun c hc => Int32.toInt_ofInt_of_le (hb c hc).1 (by have := hb c hc; omega)
  refine ⟨.inr (by rw [hi]; exact Opcode.action?_opcode .lookupSwitch), ?_⟩
  refine exists_selects (by simp) hkeys (by rw [hi]) (by rw [hi]) hd hts
    (fun n k l hk hl => .inl ?_) fun c hc => mem_map_of_mem hc
  rw [getElem?_map, Option.map_eq_some_iff] at hk hl
  obtain ⟨c, hc, rfl⟩ := hk
  obtain ⟨c', hc', rfl⟩ := hl
  obtain rfl := Option.some.inj (hc.symm.trans hc')
  exact mem_of_getElem? hc

lemma dispatches_table (hs : cases.Pairwise fun c d => c.1 < d.1) {first last : Int32}
    (hfirst : first.toInt = low) (hlast : last.toInt = high)
    (hle : ∀ c ∈ cases, low ≤ c.1 ∧ c.1 ≤ high)
    (hlen : last.toInt - first.toInt + 1 = (tableTargets default low cases).length) :
    Dispatches (.table first last default (tableTargets default low cases)) cases default := by
  rw [tableTargets_eq] at hlen ⊢
  rintro position? i ⟨d, ts, hd, hts, hi⟩
  rw [hfirst, hlast] at hlen hi
  refine ⟨.inl (by rw [hi]; exact Opcode.action?_opcode .tableSwitch), ?_⟩
  refine exists_selects (K := (range (high - low + 1).toNat).map fun n => low + (n : Nat))
    (by rw [length_map, length_range]; omega) (by rw [hi]) (by rw [hi]) (by rw [hi]) hd hts
    (fun n k l hk hl => ?_) fun c hc => ?_
  · rw [getElem?_map, Option.map_eq_some_iff] at hk
    obtain ⟨m, hm, rfl⟩ := hk
    obtain rfl : n = m := by
      rw [List.getElem?_range (by simpa using (List.getElem?_eq_some_iff.1 hm).1)] at hm
      exact Option.some.inj hm
    exact selects_of_targetsFrom hs (fun c hc => (hle c hc).1) hl
  · have := hle c hc
    exact mem_map.2 ⟨(c.1 - low).toNat, mem_range.2 (by omega), by omega⟩

lemma le_of_head_getLast {sorted : List (Int × Label)} (hs : sorted.Pairwise fun c d => c.1 ≤ d.1)
    {first last : Int × Label} (hfirst : sorted.head? = some first)
    (hlast : sorted.getLast? = some last) {c : Int × Label} (hc : c ∈ sorted) :
    first.1 ≤ c.1 ∧ c.1 ≤ last.1 := by
  constructor
  · obtain ⟨rest, rfl⟩ := head?_eq_some_iff.1 hfirst
    rcases mem_cons.1 hc with rfl | hc
    · exact le_rfl
    · exact (pairwise_cons.1 hs).1 c hc
  · obtain ⟨rest, rfl⟩ := getLast?_eq_some_iff.1 hlast
    rcases mem_append.1 hc with hc | hc
    · exact (pairwise_append.1 hs).2.2 c hc last (mem_singleton_self last)
    · rw [mem_singleton.1 hc]

/-- The dispatch is one instruction, unless there are no keys. -/
lemma intSwitch_eq_ok (hb : ∀ c ∈ cases, -2147483648 ≤ c.1 ∧ c.1 ≤ 2147483647)
    (h : intSwitch cases default env σ = .ok (u, σ')) :
    (∃ (e : Emission) (c : Code), e.Fits ∧ (∀ l ∈ e.labels, l = default ∨ ∃ c ∈ cases, c.2 = l) ∧
    ((cases.map Prod.fst).Nodup → Dispatches e cases default) ∧ σ.code.emission e = .ok c ∧
    { σ with code := c } = σ') ∨ cases = [] ∧
    ∃ τ, emit .pop env σ = .ok ((), τ) ∧ branch .goto default env τ = .ok (u, σ') := by
  have hperm : (cases.mergeSort fun a b => a.1 ≤ b.1).Perm cases := mergeSort_perm cases _
  have hs : (cases.mergeSort fun a b => a.1 ≤ b.1).Pairwise fun c d => c.1 ≤ d.1 :=
    (pairwise_mergeSort (fun a b c hab hbc => by simp_all; omega) (fun a b => by simp; omega)
      cases).imp (by simp)
  unfold intSwitch at h
  generalize cases.mergeSort (fun a b => a.1 ≤ b.1) = sorted at h hperm hs
  have hb' (c : Int × Label) (hc : c ∈ sorted) := hb c (hperm.mem_iff.1 hc)
  have hsel {e : Emission} (he : Dispatches e sorted default) : Dispatches e cases default := by
    intro position? i hy
    obtain ⟨ha, hv⟩ := he position? i hy
    refine ⟨ha, fun v => ?_⟩
    obtain ⟨l, hl, q, hs, hq⟩ := hv v
    exact ⟨l, hl, q, hs.perm hperm, hq⟩
  have hlabel {l : Label} (hl : l ∈ sorted.map Prod.snd) : ∃ c ∈ cases, c.2 = l := by
    obtain ⟨c, hc, hcl⟩ := mem_map.1 hl
    exact ⟨c, hperm.mem_iff.1 hc, hcl⟩
  cases hlow : sorted.head? with
  | none =>
    right
    obtain rfl := head?_eq_none_iff.1 hlow
    obtain ⟨_, τ, hpop, h⟩ := bind_eq_ok_iff.1 h
    exact ⟨hperm.symm.eq_nil, τ, hpop, h⟩
  | some first =>
    left
    obtain ⟨last, hhigh⟩ : ∃ last, sorted.getLast? = some last := by
      obtain ⟨rest, rfl⟩ := head?_eq_some_iff.1 hlow
      exact ⟨_, getLast?_cons⟩
    simp only [hlow, hhigh] at h
    replace h := read_bind_eq_ok_iff.1 h
    have hle {c : Int × Label} (hc : c ∈ sorted) := le_of_head_getLast hs hlow hhigh hc
    have hmem := mem_of_head? hlow
    have hmem' := mem_of_getLast? hhigh
    have hint (c : Int × Label) (hc : c ∈ sorted) : (Int32.ofInt c.1).toInt = c.1 :=
      Int32.toInt_ofInt_of_le (hb' c hc).1 (by have := hb' c hc; omega)
    have hfirst := hint first hmem
    have hlast := hint last hmem'
    split_ifs at h
    · obtain ⟨c, hc, hσ⟩ := onCode?_eq_ok_iff.1 h
      refine ⟨.table (Int32.ofInt first.1) (Int32.ofInt last.1) default
        (tableTargets default first.1 sorted), c, ?_, fun l hl => ?_, fun hn => hsel ?_, hc, hσ⟩
      · simpa [Emission.Fits, hfirst, hlast] using (hle hmem).2
      · refine (mem_cons.1 hl).elim .inl fun hl => ?_
        rw [tableTargets_eq] at hl
        exact (mem_of_mem_targetsFrom hl).imp_right fun hl => hlabel (mem_map.2 hl)
      · have hlen := (Code.emitTable_eq_ok hc).1
        have hn' : (sorted.map Prod.fst).Nodup := (hperm.map Prod.fst).nodup_iff.2 hn
        have hstrict : sorted.Pairwise fun c d => c.1 < d.1 :=
          hs.imp₂ (fun c d hle hne => lt_of_le_of_ne hle hne) (pairwise_map.1 hn')
        exact dispatches_table hstrict hfirst hlast (fun c hc => hle hc) hlen
    · obtain ⟨c, hc, hσ⟩ := onCode?_eq_ok_iff.1 h
      refine ⟨.lookup default (sorted.map fun c : Int × Label => Int32.ofInt c.1)
        (sorted.map Prod.snd), c, trivial, fun l hl => ?_,
        fun _ => hsel (dispatches_lookup hb'), hc, hσ⟩
      exact (mem_cons.1 hl).imp_right hlabel

end Lowering

end Classwright
