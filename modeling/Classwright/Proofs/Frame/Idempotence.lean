import Classwright.Proofs.Frame.Certificate
import Classwright.Proofs.Frame.Replay
import Classwright.Proofs.Frame.Termination

/-!
An analysis of what an analysis leaves.

A second analysis has other instructions where nothing was reached and a table whose ranges are
split, and comes to the same result. It makes the visits of the first, by `Body.settle_follows`.
What it reads its result off is then told apart from what the first had only where nothing is
reached (`Body.Retraced`), which no part of the result shows; and to overwrite code or to split
ranges once more changes nothing (`Body.overwrite_overwrite`, `Body.liveRuns_liveRuns`). Main
statement: `MethodCode.analyze_idempotent`.
-/

namespace Classwright

namespace Body

open Progress Insn

variable {traced traced' : List (Nat × Insn × Option Frame)} {cur : Nat} {code : Bytes}
  {p p' : Progress}

/-! ### Results are not changed again -/

lemma length_overwrite (hd : Decodes cur code (traced.map (·.2.1))) :
    (overwrite code traced).length = code.length := by
  induction traced generalizing cur code with
  | nil =>
    cases hd
    rfl
  | cons entry rest ih =>
    obtain ⟨n, i, f⟩ := entry
    obtain ⟨-, hlen, -, -, tail⟩ := Decodes.cons_inv (i := i) hd
    rw [overwrite_cons, List.length_append, length_firstBytes f hd, ih tail, List.length_drop]
    omega

lemma overwrite_overwrite (hd : Decodes cur code (traced.map (·.2.1))) :
    overwrite (overwrite code traced) traced = overwrite code traced := by
  induction traced generalizing cur code with
  | nil => rfl
  | cons entry rest ih =>
    obtain ⟨n, i, f⟩ := entry
    obtain ⟨-, -, -, -, tail⟩ := Decodes.cons_inv (i := i) hd
    have hsize := length_firstBytes f hd
    have hfirst : firstBytes (overwrite code ((n, i, f) :: rest)) i f rest =
        firstBytes code i f rest := by
      rw [overwrite_cons]
      cases f with
      | none => rfl
      | some f => exact List.take_left' hsize
    rw [overwrite_cons (overwrite code _), hfirst, overwrite_cons, List.drop_left' hsize, ih tail]

/-- A range that ends before some code has no part in it. -/
lemma liveRuns_eq_nil {e : ExceptionEntry} (hd : Decodes cur code (traced.map (·.2.1)))
    (hstop : e.stop.toNat ≤ cur) : liveRuns e none traced = [] := by
  induction traced generalizing cur code with
  | nil => rfl
  | cons entry rest ih =>
    obtain ⟨n, i, f⟩ := entry
    obtain ⟨hoff, -, hcur, -, tail⟩ := Decodes.cons_inv (i := i) hd
    have hc : e.covers i.offset = false := by simp [ExceptionEntry.covers, hoff, hstop]
    rw [liveRuns_cons, hc]
    exact ih tail (by omega)

/-- A part of a range is a range of one part. The part that is open has begun at `start`. -/
lemma liveRuns_liveRuns (h : ExceptionEntry) (hd : Decodes cur code (traced.map (·.2.1)))
    (hend : cur + code.length ≤ 65536) :
    (∀ e ∈ liveRuns h none traced, cur ≤ e.start.toNat ∧ liveRuns e none traced = [e]) ∧
      ∀ start < cur, ∃ e es, liveRuns h (some start) traced = e :: es ∧ e.start.toNat = start ∧
        (e.stop = h.stop ∨ cur ≤ e.stop.toNat) ∧ liveRuns e (some start) traced = [e] ∧
        ∀ e ∈ es, cur ≤ e.start.toNat ∧ liveRuns e none traced = [e] := by
  induction traced generalizing cur code with
  | nil =>
    refine ⟨by simp [liveRuns], fun start hstart => ⟨_, [], rfl, ?_, .inl rfl, rfl, by simp⟩⟩
    exact toNat_word (by omega)
  | cons entry rest ih =>
    obtain ⟨n, i, f⟩ := entry
    obtain ⟨rfl, hlen, hcur, hnext, tail⟩ := Decodes.cons_inv (i := i) hd
    rw [← hnext] at hend
    obtain ⟨hnone, hsome⟩ := ih tail hend
    -- Parts that begin behind the first instruction pass over it.
    have hlater {e : ExceptionEntry} (he : i.next ≤ e.start.toNat ∧ liveRuns e none rest = [e]) :
        i.offset ≤ e.start.toNat ∧ liveRuns e none ((n, i, f) :: rest) = [e] := by
      have hc : e.covers i.offset = false := by
        simp only [ExceptionEntry.covers, Bool.and_eq_false_iff, decide_eq_false_iff_not]
        omega
      rw [liveRuns_cons, hc]
      exact ⟨by omega, he.2⟩
    cases hlive : h.covers i.offset && f.isSome with
    | true =>
      obtain ⟨hc, hf⟩ := Bool.and_eq_true_iff.1 hlive
      simp only [ExceptionEntry.covers, Bool.and_eq_true, decide_eq_true_eq] at hc
      have hopen {e : ExceptionEntry} (hstart : e.start.toNat ≤ i.offset)
          (hstop : e.stop = h.stop ∨ i.next ≤ e.stop.toNat) :
            (e.covers i.offset && f.isSome) = true := by
        have : i.offset < e.stop.toNat := by
          rcases hstop with hstop | hstop
          · rw [hstop]
            exact hc.2
          · omega
        simp [ExceptionEntry.covers, hstart, this, hf]
      refine ⟨fun e he => ?_, fun start hstart => ?_⟩
      · rw [liveRuns_cons, hlive] at he
        obtain ⟨e₀, es, heq, hs, hstop, hself, hes⟩ := hsome i.offset hcur
        rcases List.mem_cons.1 (heq ▸ he) with rfl | he
        · rw [liveRuns_cons, hopen hs.le hstop]
          exact ⟨hs.ge, hself⟩
        · exact hlater (hes e he)
      · obtain ⟨e, es, heq, hs, hstop, hself, hes⟩ := hsome start (by omega)
        refine ⟨e, es, ?_, hs, hstop.imp_right (by omega), ?_, fun e he => hlater (hes e he)⟩
        · rw [liveRuns_cons, hlive]
          exact heq
        · rw [liveRuns_cons, hopen (by omega) hstop]
          exact hself
    | false =>
      refine ⟨fun e he => ?_, fun start hstart => ?_⟩
      · rw [liveRuns_cons, hlive] at he
        exact hlater (hnone e he)
      · have hword : (UInt16.ofNat i.offset).toNat = i.offset := toNat_word (by omega)
        refine ⟨{ h with start := .ofNat start, stop := .ofNat i.offset }, liveRuns h none rest, ?_,
          toNat_word (by omega), .inr hword.ge, ?_, fun e he => hlater (hnone e he)⟩
        · rw [liveRuns_cons, hlive]
        · have hc : ExceptionEntry.covers { h with start := .ofNat start, stop := .ofNat i.offset }
              i.offset =
              false := by simp [ExceptionEntry.covers, hword]
          rw [liveRuns_cons, hc]
          exact congrArg (_ :: ·) (liveRuns_eq_nil tail (by simp only [hword]; omega))

/-! ### The instructions of overwritten code -/

/-- An instruction of one byte that was not reached. -/
def Spent (x : Nat × Insn × Option Frame) : Prop := x.2.1.len = 1 ∧ x.2.2 = none

/-- Instructions that were reached again and, in place of others, some of one byte that were not. -/
inductive Retraced (p p' : Progress) :
    List (Nat × Insn × Option Frame) → List (Nat × Insn × Option Frame) → Prop
  | nil : Retraced p p' [] []
  | live {n k : Nat} {i : Insn} {f : Frame} {rest rest'} (htarget : p'.isTarget k = p.isTarget n)
      (hrest : Retraced p p' rest rest') :
        Retraced p p' ((n, i, some f) :: rest) ((k, i, some f) :: rest')
  | dead {n k : Nat} {i j : Insn} {more rest rest'} (hoffset : j.offset = i.offset)
      (hlen : more.length + 1 = i.len)
      (hj : j.len = 1) (hmore : ∀ x ∈ more, Spent x) (hrest : Retraced p p' rest rest') :
      Retraced p p' ((n, i, none) :: rest) ((k, j, none) :: (more ++ rest'))

lemma overwrite_spent {k : Nat} {j : Insn} {more : List (Nat × Insn × Option Frame)}
    (hj : j.len = 1) (hmore : ∀ x ∈ more, Spent x) (code : Bytes) :
    overwrite code ((k, j, none) :: (more ++ traced)) = deadBytes (endsRun traced)
    (more.length + 1) ++ overwrite (code.drop (more.length + 1)) traced := by
  induction more generalizing k j code with
  | nil =>
    show deadBytes (endsRun traced) j.len ++ _ = _
    rw [hj]
    rfl
  | cons x more ih =>
    obtain ⟨l, j', f⟩ := x
    obtain ⟨⟨hj', rfl⟩, hrest⟩ := List.forall_mem_cons.1 hmore
    show deadBytes false j.len ++ overwrite (code.drop j.len) ((l, j', none) :: (more ++ traced)) =
      _
    rw [ih hj' hrest, hj, List.drop_drop, List.length_cons, deadBytes_succ, Nat.add_comm 1]
    rfl

section

variable {more : List (Nat × Insn × Option Frame)} (hmore : ∀ x ∈ more, Spent x)

include hmore

lemma mapFrames_spent (targets : Array Bool) :
    mapFrames targets false (more ++ traced) = mapFrames targets false traced := by
  induction more with
  | nil => rfl
  | cons x more ih =>
    obtain ⟨l, j, f⟩ := x
    obtain ⟨⟨-, rfl⟩, hrest⟩ := List.forall_mem_cons.1 hmore
    exact ih hrest

lemma liveRuns_spent (e : ExceptionEntry) :
    liveRuns e none (more ++ traced) = liveRuns e none traced := by
  induction more with
  | nil => rfl
  | cons x more ih =>
    obtain ⟨l, j, f⟩ := x
    obtain ⟨⟨-, rfl⟩, hrest⟩ := List.forall_mem_cons.1 hmore
    rw [List.cons_append, liveRuns_cons, Option.isSome_none, Bool.and_false]
    exact ih hrest

end

namespace Retraced

variable (hr : Retraced p p' traced traced')

include hr

lemma endsRun_eq : endsRun traced' = endsRun traced := by
  cases hr <;> rfl

lemma overwrite_eq (code : Bytes) : overwrite code traced' = overwrite code traced := by
  induction hr generalizing code with
  | nil => rfl
  | live _ _ ih => simp only [overwrite, ih]
  | dead _ hlen hj hmore hrest ih =>
    rw [overwrite_spent hj hmore, hlen, hrest.endsRun_eq, ih]
    rfl

lemma mapFrames_eq (live : Bool) :
    mapFrames p'.targets live traced' = mapFrames p.targets live traced := by
  induction hr generalizing live with
  | nil => rfl
  | live htarget _ ih =>
    simp only [isTarget] at htarget
    simp only [mapFrames, ih, htarget]
  | dead hoffset _ _ hmore _ ih => simp only [mapFrames, mapFrames_spent hmore, ih, hoffset]

lemma liveRuns_eq (e : ExceptionEntry) (run : Option Nat) :
    liveRuns e run traced' = liveRuns e run traced := by
  induction hr generalizing run with
  | nil => rfl
  | live _ _ ih => simp only [liveRuns_cons, ih]
  | dead hoffset _ _ hmore _ ih =>
    rw [liveRuns_cons, liveRuns_cons, Option.isSome_none, Bool.and_false, Bool.and_false, hoffset]
    cases run <;> simp only [liveRuns_spent hmore, ih]

lemma any_isNone_eq : (traced'.any fun x => x.2.2.isNone) = traced.any fun x => x.2.2.isNone := by
  induction hr with
  | nil => rfl
  | live _ _ ih => simp only [List.any_cons, ih]
  | dead => simp

end Retraced

section

variable {b' : Body} {k : Nat} {is : List Insn}

lemma insns_of_drop {i : Insn} (hk : b'.insns.toList.drop k = i :: is) :
    b'.insns[k]? = some i ∧ b'.insns.toList.drop (k + 1) = is := by
  have hget := congrArg (·[0]?) hk
  have htail := congrArg List.tail hk
  exact ⟨by simpa using hget, by simpa using htail⟩

/-- Where idle instructions stand in a row, none of them reached. -/
lemma drop_traced_idleRun {last : Bool} {offset len : Nat}
    (hk : b'.insns.toList.drop k = idleRun last offset (len + 1) ++ is)
    (hnone : ∀ {k : Nat} {j}, b'.insns[k]? = some j → offset ≤ j.offset → j.offset ≤ offset + len →
    p'.frameAt k = none) : ∃ j more, (b'.traced p').drop k =
    (k, j, none) :: (more ++ (b'.traced p').drop (k + (len + 1))) ∧ j.offset = offset ∧ j.len = 1 ∧
    more.length = len ∧ (∀ x ∈ more, Spent x) ∧ b'.insns.toList.drop (k + (len + 1)) = is := by
  induction len generalizing k offset with
  | zero =>
    obtain ⟨hi, hrest⟩ := insns_of_drop (i := idle last offset) hk
    refine ⟨idle last offset, [], ?_, rfl, rfl, rfl, by simp, hrest⟩
    rw [drop_traced hi, hnone hi le_rfl le_rfl]
    rfl
  | succ len ih =>
    obtain ⟨hi, hrest⟩ := insns_of_drop (i := idle false offset) hk
    obtain ⟨j, more, hdrop, -, hj, hlen, hmore, his⟩ :=
      ih hrest fun hj hle hlt => hnone hj (by omega) (by omega)
    rw [show k + 1 + (len + 1) = k + (len + 1 + 1) by omega] at hdrop his
    refine ⟨idle false offset, (k + 1, j, none) :: more, ?_, rfl, rfl, by simp [hlen],
      List.forall_mem_cons.2 ⟨⟨hj, rfl⟩, hmore⟩, his⟩
    rw [drop_traced hi, hnone hi le_rfl (Nat.le_add_right _ _), hdrop]
    rfl

/-- The second time, all that was reached is reached, and nothing else. -/
lemma retraced_drop (hlive : ∀ {n i f}, (n, i, some f) ∈ traced →
    ∀ {k : Nat}, b'.insns[k]? = some i → p'.frameAt k = some f ∧
    p'.isTarget k = p.isTarget n)
    (hdead : ∀ {n i}, (n, i, none) ∈ traced → 0 < i.len ∧ ∀ {k : Nat} {j}, b'.insns[k]? = some j →
    i.offset ≤ j.offset → j.offset < i.next →
    p'.frameAt k = none) (hk : b'.insns.toList.drop k = rewritten traced) :
    Retraced p p' traced ((b'.traced p').drop k) := by
  induction traced generalizing k with
  | nil =>
    rw [drop_traced_eq_nil (by simpa [rewritten] using hk)]
    exact .nil
  | cons entry rest ih =>
    obtain ⟨n, i, f⟩ := entry
    have ih {k : Nat} := @ih k (fun hmem => hlive (List.mem_cons_of_mem _ hmem))
      fun hmem => hdead (List.mem_cons_of_mem _ hmem)
    cases f with
    | some f =>
      obtain ⟨hi, hrest⟩ := insns_of_drop hk
      obtain ⟨hframe, htarget⟩ := hlive List.mem_cons_self hi
      rw [drop_traced hi, hframe]
      exact .live htarget (ih hrest)
    | none =>
      obtain ⟨hpos, hnone⟩ := hdead List.mem_cons_self
      obtain ⟨len, hlen⟩ := Nat.exists_eq_add_one_of_ne_zero hpos.ne'
      rw [rewritten, hlen] at hk
      obtain ⟨j, more, hdrop, hoffset, hj, hmorelen, hmore, hrest⟩ := drop_traced_idleRun hk
        fun hj hle hlt => hnone hj hle (by simp only [next]; omega)
      rw [hdrop]
      exact .dead hoffset (by omega) hj hmore (ih hrest)

end

/-! ### The second analysis -/

section

variable {m : MethodCode} {h : Hierarchy} {ret : String} {insns : List Insn} {locals : List VType}

/-- The body of a method with the code and the handlers that an analysis leaves. -/
def again (b : Body) (locals : List VType) (p : Progress) : Body :=
  ofInsns
    { b.method with
      code := (b.analysis locals p).code, handlers := (b.analysis locals p).handlers }
    b.hierarchy b.ret (rewritten (b.traced p))

variable {b : Body} (hb : b.Placed)

include hb

lemma Placed.replica_again (hlen : b.method.code.length ≤ 65536) :
    Replica b (b.again locals p) fun n => ∃ f, p.frameAt n = some f where
  placed := hb
  placed' :=
    have hd : Decodes 0 (b.analysis locals p).code (rewritten (b.traced p)) := hb.decodes_rewritten
    ⟨indexed_ofInsns hd, hd⟩
  hierarchy := rfl
  pool := rfl
  context := rfl
  insns := by
    rintro n i ⟨f, hf⟩ hi
    have hmem : i ∈ rewritten (b.traced p) :=
      mem_rewritten (List.mem_of_getElem? (i := n) (by rw [getElem?_traced, hi, hf]; rfl))
    obtain ⟨k, hk⟩ := List.mem_iff_getElem?.1 hmem
    exact ⟨k, by simpa [again, ofInsns] using hk⟩
  handlers := by
    rintro n i ⟨f, hf⟩ hi
    show covering (b.analysis locals p).handlers i.offset = _
    exact hb.covering_analysis hlen hi hf

lemma Placed.retraced_again (hm : b.Mirrors (b.again locals p) p p') :
    Retraced p p' (b.traced p) ((b.again locals p).traced p') := by
  refine retraced_drop (k := 0) (fun hmem k hk => ?_) (fun {n i} hmem => ?_)
    (by simp [again, ofInsns])
  · obtain ⟨hi, hf⟩ := mem_traced hmem
    have ht : b.Twin (b.again locals p) _ k := ⟨_, hi, hk⟩
    exact ⟨(hm.frames ht).trans hf, hm.targets ht⟩
  · obtain ⟨hi, hf⟩ := mem_traced hmem
    refine ⟨hb.decodes.len_pos_of_mem (List.mem_of_getElem? (i := n) (by simpa using hi)),
      fun {k j} hk hle hlt => ?_⟩
    -- Only an instruction that was reached could stand there, and the one that was there was not.
    cases hg : p'.frameAt k with
    | none => rfl
    | some g =>
      obtain ⟨n', j', hj, hk'⟩ := hm.others hg
      obtain rfl : j = j' := Option.some.inj (hk.symm.trans hk')
      have hpos := hb.decodes.len_pos_of_mem (List.mem_of_getElem? (i := n') (by simpa using hj))
      obtain rfl := hb.eq_of_overlap hi hj hle hlt le_rfl (by simp only [next]; omega)
      rw [hm.frames ⟨j, hj, hk⟩, hf] at hg
      cases hg

lemma Placed.analysis_again (hlen : b.method.code.length ≤ 65536)
    (hm : b.Mirrors (b.again locals p) p p') :
    (b.again locals p).analysis locals p' = b.analysis locals p := by
  have hr := hb.retraced_again hm
  have hd : Decodes 0 b.method.code ((b.traced p).map (·.2.1)) := map_traced ▸ hb.decodes
  have hcode : overwrite (overwrite b.method.code (b.traced p)) ((b.again locals p).traced p') =
      overwrite b.method.code (b.traced p) := by
    rw [hr.overwrite_eq, overwrite_overwrite hd]
  have hhandlers : ((b.method.handlers.flatMap fun e => liveRuns e none (b.traced p)).flatMap
      fun e => liveRuns e none ((b.again locals p).traced p')) =
        b.method.handlers.flatMap fun e => liveRuns e none (b.traced p) := by
    rw [List.flatMap_assoc]
    refine List.flatMap_congr fun e _ => ?_
    calc
      (liveRuns e none (b.traced p)).flatMap fun e => liveRuns e none ((b.again locals p).traced p')
      _ = (liveRuns e none (b.traced p)).flatMap ([·]) := List.flatMap_congr fun e' he' => by
        rw [hr.liveRuns_eq, ((liveRuns_liveRuns e hd (by omega)).1 e' he').2]
      _ = liveRuns e none (b.traced p) := List.flatMap_singleton' _
  unfold analysis
  simp only [hr.mapFrames_eq, hm.maxStack, hm.maxLocals, Analysis.mk.injEq]
  refine ⟨?_, trivial, hcode, hhandlers, trivial, trivial⟩
  rw [hr.any_isNone_eq]

end

end Body

/-- What an analysis leaves is analysed with the same result, in as many steps. -/
lemma MethodCode.analyzeWithin_again {m : MethodCode} {h : Hierarchy} {fuel : Nat} {a : Analysis}
    (hlen : m.code.length ≤ 65536) (ha : m.analyzeWithin fuel h = .ok a) :
    ({ m with code := a.code, handlers := a.handlers } : MethodCode).analyzeWithin fuel h =
    .ok a := by
  obtain ⟨insns, params, ret, locals, p, hne, hd, hparse, hlocals, hsettle, rfl⟩ :=
    analyzeWithin_eq_ok ha
  set b := Body.ofInsns m h ret insns
  have hb : b.Placed := ⟨Body.indexed_ofInsns hd, hd⟩
  have hpos : 0 < b.insns.size := List.length_pos_iff.2 (hd.ne_nil hne)
  have hR : b.Replica (b.again locals p) fun n => ∃ f, p.frameAt n = some f := hb.replica_again hlen
  obtain ⟨hlive, hfollows⟩ := Body.settle_follows hR (Body.listed_start locals hpos).1.sized hsettle
    fun n f hf => ⟨f, hf⟩
  have hstart := hR.mirrors_start hpos (hlive (by rw [Body.frameAt_start hpos, if_pos rfl])) locals
  obtain ⟨p', hsettle', hm⟩ := hfollows (fun hf => by
    rw [Body.frameAt_start hpos] at hf
    split_ifs at hf
    exact Option.some.inj hf ▸ fitting_initialLocals hlocals _ _) hstart
  have hd' : Insn.Decodes 0 (b.analysis locals p).code (Body.rewritten (b.traced p)) :=
    hb.decodes_rewritten
  have hne' : (b.analysis locals p).code ≠ [] := by
    have hsize : (b.analysis locals p).code.length = m.code.length :=
      Body.length_overwrite (Body.map_traced ▸ hb.decodes)
    rwa [← List.length_pos_iff, hsize, List.length_pos_iff]
  refine (analyzeWithin_eq_settle (m := { m with code := (b.analysis locals p).code
                                                 handlers := (b.analysis locals p).handlers })
    (by simpa using hne') (Insn.decodeAll_eq_ok_iff.2 hd') hparse hlocals fuel h).trans ?_
  exact (congrArg (· >>= _) hsettle').trans (congrArg Except.ok (hb.analysis_again hlen hm))

/-- An analysis of its own result changes nothing. -/
theorem MethodCode.analyze_idempotent {m : MethodCode} {h : Hierarchy} {a : Analysis}
    (hlen : m.code.length ≤ 65535) (ha : m.analyze h = .ok a) :
    ({ m with code := a.code, handlers := a.handlers } : MethodCode).analyze h = .ok a :=
  analyzeWithin_again (by omega) ha

theorem analyze_protectedBranch_again :
    ∃ a, protectedBranch.code.length ≤ 65535 ∧ protectedBranch.analyze {} = .ok a ∧
    a.code ≠ protectedBranch.code ∧ a.handlers ≠ protectedBranch.handlers ∧
    ({ protectedBranch with code := a.code, handlers := a.handlers } : MethodCode).analyze {} =
    .ok a := by
  have hlen : protectedBranch.code.length ≤ 65535 := by decide
  obtain ⟨a, ha, hcode, hhandlers⟩ := exists_analyze_protectedBranch
  exact ⟨a, hlen, ha, hcode, hhandlers, MethodCode.analyze_idempotent hlen ha⟩

end Classwright
