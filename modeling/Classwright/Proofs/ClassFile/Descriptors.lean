import Classwright.Machine.Step
import Classwright.Proofs.Outcome

/-!
Descriptors read back.

`Descriptor.Field` is the grammar of field descriptors. None of them is in front of another one, so
a text is split in one way only: `Descriptor.parse_eq_ok_iff` says that reading accepts exactly the
texts of the grammar, as their parts. The descriptor of a type of values is one of the grammar
(`Erased.Spelled.field`), and so the descriptor of a method is read as those of its types
(`Descriptor.parse_methodDescriptor`), as long as no class among them has a semicolon in its name.
-/

namespace Classwright

open List

namespace Descriptor

/-! ### Field descriptors -/

/-- A field descriptor: any number of brackets, and the letter of a primitive or a class name
between `L` and a semicolon. -/
inductive Field : List Char → Prop where
  | prim (n : Nat) {c : Char} (h : c ∈ primitives) : Field (replicate n '[' ++ [c])
  | cls (n : Nat) {name : List Char} (h : ';' ∉ name) :
      Field (replicate n '[' ++ 'L' :: (name ++ [';']))

variable {f rest cs : List Char}

namespace Field

/-- What a descriptor starts with is no parenthesis, and what it ends with is not that of `void`. -/
lemma ends (h : Field f) : (∃ c cs, f = c :: cs ∧ c ≠ ')') ∧ ∃ cs c, f = cs ++ [c] ∧ c ≠ 'V' := by
  have hfront (n : Nat) {c : Char} (hc : c ≠ ')') (cs : List Char) :
      ∃ d ds, replicate n '[' ++ c :: cs = d :: ds ∧ d ≠ ')' := by
    cases n with
    | zero => exact ⟨c, cs, rfl, hc⟩
    | succ n => exact ⟨'[', _, rfl, by decide⟩
  cases h with
  | @prim n c h =>
    have hc : c ≠ ')' ∧ c ≠ 'V' := by constructor <;> rintro rfl <;> revert h <;> decide
    exact ⟨hfront n hc.1 [], _, c, rfl, hc.2⟩
  | @cls n name h =>
    exact ⟨hfront n (by decide) _, replicate n '[' ++ 'L' :: name, ';', by simp, by decide⟩

lemma ne_void (h : Field f) : f ≠ ['V'] := by
  obtain ⟨-, cs, c, rfl, hc⟩ := h.ends
  intro heq
  have hlast := congrArg getLast? heq
  rw [getLast?_concat] at hlast
  exact hc (Option.some.inj hlast)

lemma brackets (n : Nat) (h : Field f) : Field (replicate n '[' ++ f) := by
  cases h with
  | prim k h => simpa [← append_assoc, replicate_append_replicate] using Field.prim (n + k) h
  | cls k h => simpa [← append_assoc, replicate_append_replicate] using Field.cls (n + k) h

end Field

/-- What stands in front of the first character that is not wanted. -/
lemma span_append {p : Char → Bool} {cs : List Char} {c : Char} (hcs : ∀ x ∈ cs, p x)
    (hc : p c = false) (rest : List Char) :
    (cs ++ c :: rest).takeWhile p = cs ∧ (cs ++ c :: rest).dropWhile p = c :: rest := by
  rw [takeWhile_append_of_pos hcs, dropWhile_append_of_pos hcs]
  simp [hc]

/-- A field descriptor in front of a text is taken off it. -/
lemma takeField_append (h : Field f) (rest : List Char) :
    takeField (f ++ rest) = .ok (f, rest) := by
  have hspan (n : Nat) {c : Char} (hc : c ≠ '[') (cs : List Char) :=
    span_append (p := fun x => decide (x = '['))
      (fun x hx => decide_eq_true (eq_of_mem_replicate (n := n) hx)) (decide_eq_false hc) cs
  cases h with
  | @prim n c h =>
    have hc : c ≠ '[' ∧ c ≠ 'L' := by constructor <;> rintro rfl <;> revert h <;> decide
    obtain ⟨htake, hdrop⟩ := hspan n hc.1 rest
    unfold takeField
    rw [append_assoc, singleton_append, htake, hdrop]
    simp [hc.2, h]
  | @cls n name h =>
    obtain ⟨htake, hdrop⟩ := hspan n (c := 'L') (by decide) (name ++ ';' :: rest)
    have hletters : ∀ x ∈ name, decide (x ≠ ';') :=
      fun x hx => decide_eq_true fun heq => h (heq ▸ hx)
    obtain ⟨hname, hrest⟩ := span_append (c := ';') hletters (by decide) rest
    unfold takeField
    rw [append_assoc, cons_append, append_assoc, singleton_append, htake, hdrop]
    simp only [hname, hrest]
    simp

/-- What is taken off a text is a field descriptor. -/
lemma takeField_eq_ok (h : takeField cs = .ok (f, rest)) : Field f ∧ cs = f ++ rest := by
  have hbrackets : cs.takeWhile (· = '[') = replicate (cs.takeWhile (· = '[')).length '[' :=
    eq_replicate_of_mem fun x hx => of_decide_eq_true (all_eq_true.1 all_takeWhile x hx)
  have hcs : cs.takeWhile (· = '[') ++ cs.dropWhile (· = '[') = cs := takeWhile_append_dropWhile
  unfold takeField at h
  dsimp only at h
  split at h
  · cases h
  · next name hdrop =>
    have hname : name.takeWhile (· ≠ ';') ++ name.dropWhile (· ≠ ';') = name :=
      takeWhile_append_dropWhile
    have hsemi : ';' ∉ name.takeWhile (· ≠ ';') := fun hmem => by
      simpa using all_eq_true.1 all_takeWhile _ hmem
    split at h
    · cases h
    · next c rest' hstop =>
      cases h
      obtain rfl : c = ';' := by
        have hnot := head?_dropWhile_not (fun x => decide (x ≠ ';')) name
        rw [hstop] at hnot
        simpa using hnot
      refine ⟨?_, hcs.symm.trans ?_⟩
      · rw [hbrackets]
        simpa using Field.cls _ hsemi
      · rw [hstop] at hname
        rw [hdrop]
        simpa using hname.symm
  · next c rest' hclass hdrop =>
    split_ifs at h with hprim
    cases h
    refine ⟨?_, hcs.symm.trans ?_⟩
    · rw [hbrackets]
      exact .prim _ (by simpa using hprim)
    · rw [hdrop, append_assoc, singleton_append]

/-! ### Method descriptors -/

lemma takeParams_cons {c : Char} (hc : c ≠ ')') (fuel : Nat) (cs : List Char) :
    takeParams (fuel + 1) (c :: cs) = (do
      let (p, rest) ← takeField (c :: cs)
      let (ps, rest) ← takeParams fuel rest
      return (p :: ps, rest)) := by
  rw [takeParams]
  · exact cons_ne_nil _ _
  · rintro rest heq
    exact hc (cons.inj heq).1

/-- Field descriptors are taken off up to a parenthesis or the end. -/
lemma takeParams_append {ps : List (List Char)} (h : ∀ p ∈ ps, Field p)
    (hrest : rest = [] ∨ ∃ ret, rest = ')' :: ret) {fuel : Nat} (hfuel : ps.length ≤ fuel) :
    takeParams fuel (ps.flatten ++ rest) = .ok (ps, rest) := by
  induction ps generalizing fuel with
  | nil => obtain rfl | ⟨ret, rfl⟩ := hrest <;> cases fuel <;> rfl
  | cons p ps ih =>
    obtain ⟨fuel, rfl⟩ : ∃ n, fuel = n + 1 := Nat.exists_eq_succ_of_ne_zero (by grind)
    obtain ⟨hp, hps⟩ := forall_mem_cons.1 h
    obtain ⟨⟨c, cs, hc, hne⟩, -⟩ := hp.ends
    have hfield := takeField_append hp (ps.flatten ++ rest)
    rw [flatten_cons, append_assoc, hc, cons_append, takeParams_cons hne, ← cons_append, ← hc,
      hfield]
    refine Except.bind_eq_ok_iff.2 ⟨_, rfl, ?_⟩
    dsimp only
    rw [ih hps (Nat.le_of_succ_le_succ hfuel)]
    rfl

/-- What is taken off are field descriptors. -/
lemma takeParams_eq_ok {ps : List (List Char)} {fuel : Nat} (hfuel : cs.length ≤ fuel)
    (h : takeParams fuel cs = .ok (ps, rest)) :
    (∀ p ∈ ps, Field p) ∧ cs = ps.flatten ++ rest ∧ (rest = [] ∨ ∃ ret, rest = ')' :: ret) := by
  induction fuel generalizing cs ps with
  | zero =>
    obtain rfl := eq_nil_of_length_eq_zero (Nat.le_zero.1 hfuel)
    cases h
    exact ⟨by simp, rfl, .inl rfl⟩
  | succ fuel ih =>
    rcases cs with - | ⟨c, cs⟩
    · cases h
      exact ⟨by simp, rfl, .inl rfl⟩
    · by_cases hc : c = ')'
      · subst hc
        cases h
        exact ⟨by simp, rfl, .inr ⟨cs, rfl⟩⟩
      · rw [takeParams_cons hc] at h
        obtain ⟨⟨p, rest'⟩, htake, h⟩ := Except.bind_eq_ok_iff.1 h
        obtain ⟨⟨ps', rest''⟩, hps, h⟩ := Except.bind_eq_ok_iff.1 h
        cases h
        obtain ⟨hp, hcs⟩ := takeField_eq_ok htake
        obtain ⟨⟨d, ds, rfl, -⟩, -⟩ := hp.ends
        have hlen := congrArg length hcs
        simp only [length_cons, length_append] at hlen hfuel
        obtain ⟨hfields, rfl, hrest⟩ := ih (by omega) hps
        exact ⟨forall_mem_cons.2 ⟨hp, hfields⟩, by rw [hcs, flatten_cons, append_assoc], hrest⟩

/-- A field descriptor is a character at least. -/
lemma length_le_flatten {ps : List (List Char)} (h : ∀ p ∈ ps, Field p) :
    ps.length ≤ ps.flatten.length := by
  induction ps with
  | nil => exact le_rfl
  | cons p ps ih =>
    obtain ⟨hp, hps⟩ := forall_mem_cons.1 h
    obtain ⟨⟨c, cs, rfl, -⟩, -⟩ := hp.ends
    have := ih hps
    simp only [length_cons, flatten_cons, length_append]
    omega

/-- A text is read exactly if it has the form of a method descriptor, and as the parts it consists
of. -/
lemma parse_eq_ok_iff {desc ret : String} {params : List String} : parse desc = .ok (params, ret) ↔
    (∀ p ∈ params, Field p.toList) ∧ (Field ret.toList ∨ ret = "V") ∧
      desc = "(" ++ String.join params ++ ")" ++ ret := by
  constructor
  · intro h
    unfold parse at h
    obtain ⟨-, h⟩ := Except.refuse_eq_ok_iff.1 h
    split at h
    · next cs hdesc =>
      obtain ⟨⟨ps, rest⟩, htake, h⟩ := Except.bind_eq_ok_iff.1 h
      obtain ⟨hps, hcs, rfl | ⟨rs, rfl⟩⟩ :=
        takeParams_eq_ok le_rfl (Except.mapError_eq_ok_iff.1 htake)
      · exact absurd h Except.throw_ne_ok
      · obtain ⟨hret, hparts⟩ : (Field rs ∨ rs = ['V']) ∧ (ps.map String.ofList, String.ofList rs) =
          (params, ret) := by
          by_cases hvoid : rs = ['V']
          · simp only [hvoid, ne_eq, not_true_eq_false, if_false] at h
            exact ⟨.inr hvoid, hvoid ▸ Except.pure_eq_ok_iff.1 h⟩
          · simp only [hvoid, ne_eq, not_false_eq_true, if_true] at h
            split at h
            · next f hfield =>
              obtain ⟨hf, hrs⟩ := takeField_eq_ok hfield
              rw [append_nil] at hrs
              exact ⟨.inl (hrs ▸ hf), Except.pure_eq_ok_iff.1 h⟩
            · exact absurd h Except.throw_ne_ok
        cases hparts
        refine ⟨by simpa using hps, ?_, ?_⟩
        · rw [String.toList_ofList, ← String.toList_inj, String.toList_ofList]
          exact hret
        · rw [← String.toList_inj, hdesc, hcs]
          simp [flatMap_def, Function.comp_def]
    · exact absurd h Except.throw_ne_ok
  · rintro ⟨hparams, hret, rfl⟩
    have hfields : ∀ p ∈ params.map String.toList, Field p := forall_mem_map.2 hparams
    have hlist : ("(" ++ String.join params ++ ")" ++ ret).toList =
        '(' :: ((params.map String.toList).flatten ++ ')' :: ret.toList) := by simp [flatMap_def]
    have hsize : ¬ ("(" ++ String.join params ++ ")" ++ ret).utf8ByteSize < 3 := by
      have hone : ret.utf8ByteSize ≠ 0 := by
        rw [Ne, String.utf8ByteSize_eq_zero_iff, ← String.toList_eq_nil_iff]
        obtain hret | rfl := hret
        · obtain ⟨⟨c, cs, hc, -⟩, -⟩ := hret.ends
          simp [hc]
        · decide
      have hparens : "(".utf8ByteSize = 1 ∧ ")".utf8ByteSize = 1 := by decide
      simp only [String.utf8ByteSize_append]
      omega
    have hfuel : (params.map String.toList).length ≤
        ((params.map String.toList).flatten ++ ')' :: ret.toList).length :=
      (length_le_flatten hfields).trans (by simp)
    have htake := takeParams_append hfields (.inr ⟨ret.toList, rfl⟩) hfuel
    unfold parse
    rw [if_neg hsize, hlist]
    refine Except.bind_eq_ok_iff.2 ⟨(params.map String.toList, ')' :: ret.toList),
      by rw [htake]; rfl, ?_⟩
    have hparts : ((params.map String.toList).map String.ofList, String.ofList ret.toList) =
        (params, ret) := by simp
    dsimp only
    rw [hparts]
    obtain hret | rfl := hret
    · have hfield := takeField_append hret []
      rw [append_nil] at hfield
      rw [if_pos hret.ne_void, hfield]
      rfl
    · rfl

end Descriptor

/-! ### Descriptors of types -/

lemma Erased.erase_toTy (e : Erased) : e.toTy.erase = e := by
  induction e with
  | prim p => rfl
  | cls c => rfl
  | array of dims ih => exact congrArg (Erased.array · dims) ih

/-- A type of values whose descriptor can be told from what follows it. -/
def Erased.Spelled : Erased → Prop
  | .prim p => p ≠ .void
  | .cls c => ';' ∉ c.name.toList
  | .array of _ => of.Spelled

lemma Erased.Spelled.field {e : Erased} (h : e.Spelled) : Descriptor.Field e.descriptor.toList := by
  induction e with
  | prim p =>
    have hletter : p.letter ∈ Descriptor.primitives := by
      cases p <;> first | exact absurd rfl h | decide
    simpa [descriptor, Prim.descriptor] using Descriptor.Field.prim 0 hletter
  | cls c =>
    have hinternal : ';' ∉ c.internal.toList := by
      simp only [ClassTy.internal, internalOfBinary, String.toList_ofList, mem_map, not_exists,
        not_and]
      intro x hx heq
      split at heq
      · cases heq
      · exact h (heq ▸ hx)
    simpa [descriptor] using Descriptor.Field.cls 0 hinternal
  | array of dims ih => simpa [descriptor] using (ih h).brackets dims

namespace Descriptor

variable {params : List Ty} {ret : Ty}

/-- A method descriptor is read as those of its parameters and its return type. -/
lemma parse_methodDescriptor (hparams : ∀ t ∈ params, t.erase.Spelled)
    (hret : ret.isVoid ∨ ret.erase.Spelled) :
    parse (methodDescriptor params ret) = .ok (params.map Ty.descriptor, ret.descriptor) := by
  refine parse_eq_ok_iff.2 ⟨forall_mem_map.2 fun t ht => (hparams t ht).field, ?_, rfl⟩
  refine hret.symm.imp Erased.Spelled.field fun hvoid => ?_
  rw [Ty.descriptor, of_decide_eq_true (p := ret.erase = .prim .void) hvoid]
  rfl

lemma width_eq_one {desc : String} (h : ∀ c ∈ ['V', 'J', 'D'], desc.toList ≠ [c]) :
    width desc = 1 := by
  unfold width
  rw [if_neg, if_neg]
  · rintro (rfl | rfl)
    · exact h 'J' (by simp) rfl
    · exact h 'D' (by simp) rfl
  · rintro rfl
    exact h 'V' (by simp) rfl

/-- The width of a value is that of its descriptor, unless an array has no dimension. -/
lemma width_descriptor {t : Ty} (hdims : ∀ of dims, t.erase = .array of dims → 0 < dims) :
    width t.descriptor = t.width := by
  rw [Ty.descriptor, Ty.width]
  cases he : t.erase with
  | prim p => cases p <;> rfl
  | cls c => exact width_eq_one (by simp [Erased.descriptor])
  | array of dims =>
    obtain ⟨n, rfl⟩ := Nat.exists_eq_succ_of_ne_zero (hdims of dims he).ne'
    exact width_eq_one (by simp [Erased.descriptor, replicate_succ])

/-- **Method descriptors are read back.** A text is accepted exactly if it is a parenthesised
sequence of field descriptors in front of one more or of `V`, and is split into just these. The
descriptor of a method is read as those of its parameters and its return type, and the words of its
arguments are those of its parameters. -/
theorem reads_methodDescriptors :
    (∀ desc params ret, parse desc = .ok (params, ret) ↔ (∀ p ∈ params, Field p.toList) ∧
      (Field ret.toList ∨ ret = "V") ∧ desc = "(" ++ String.join params ++ ")" ++ ret) ∧
    ∀ (params : List Ty) (ret : Ty), (∀ t ∈ params, t.erase.Spelled) →
      (∀ t ∈ params, ∀ of dims, t.erase = .array of dims → 0 < dims) →
      (ret.isVoid ∨ ret.erase.Spelled) →
      parse (methodDescriptor params ret) = .ok (params.map Ty.descriptor, ret.descriptor) ∧
      argWords (methodDescriptor params ret) = .ok (params.map Ty.width).sum := by
  refine ⟨fun desc params ret => parse_eq_ok_iff, fun params ret hparams hdims hret => ?_⟩
  have hparse := parse_methodDescriptor hparams hret
  refine ⟨hparse, Except.bind_eq_ok_iff.2 ⟨_, hparse, ?_⟩⟩
  have hwidths : (params.map Ty.descriptor).map width = params.map Ty.width := by
    rw [List.map_map]
    exact List.map_congr_left fun t ht => width_descriptor (hdims t ht)
  show Except.ok _ = _
  rw [hwidths]
  rfl

/-- A method with the parameters `List<String>`, `? extends long`, `T[][]` and `double`, which is of
type `void`. -/
theorem reads_methodDescriptors_mixed :
    parse "(Ljava/util/List;J[[Ljava/lang/Object;D)V" =
      .ok (["Ljava/util/List;", "J", "[[Ljava/lang/Object;", "D"], "V") ∧
    argWords "(Ljava/util/List;J[[Ljava/lang/Object;D)V" = .ok 6 :=
  reads_methodDescriptors.2 [.generic ⟨"java.util.List", .interface, false⟩ [.string],
    .wildcard [.prim .long] [], .array (.var "T" []) 2,
    .prim .double] (.prim .void) (by simp [Ty.erase, Erased.Spelled, ClassTy.object])
    (by simp [Ty.erase]) (.inl rfl)

end Descriptor

/-- A method with a value. -/
lemma Machine.returnsValue_methodDescriptor (params : List Ty) {ret : Ty}
    (hret : ret.erase.Spelled) : Machine.returnsValue (methodDescriptor params ret) := by
  obtain ⟨-, cs, c, hc, hne⟩ := hret.field.ends
  have hend : (methodDescriptor params ret).endsWith ")V" = false := by
    rw [String.endsWith_eq_endsWith_toSlice, String.Slice.endsWith_string_eq_false_iff,
      String.copy_toSlice, methodDescriptor, String.toList_append, Ty.descriptor, hc]
    rintro ⟨ds, heq⟩
    have hlast := congrArg getLast? heq
    rw [getLast?_append, ← append_assoc, getLast?_concat] at hlast
    exact hne (Option.some.inj hlast).symm
  simp [returnsValue, hend]

end Classwright
