import Mathlib.Data.Fintype.Card
import Mathlib.Order.WellFounded
import Classwright.Proofs.Frame.Subclasses
import Classwright.Proofs.Lowering.Adding

/-!
Casts that cannot succeed.

The walk up from a class ends at the root, whatever superclass was declared for it. Where
superclasses form no cycle, what the walk does not find is not above the class at all, and two
classes that are unrelated have no subclass in common (`unrelated_spec`): a conversion is refused
only between such classes.

* `Hierarchy.Climbs`: a superclass that the walk goes on to.
* `Hierarchy.Acyclic`: no class is above itself.
* `Lowering.Blames`: when a computation fails with a mismatch.
-/

namespace Classwright

open Relation

namespace Hierarchy

/-- `b` is the superclass of `a`. -/
def Super (h : Hierarchy) (a b : String) : Prop := h.super? a = some b

/-- So it is, and `a` is not the root. -/
def Climbs (h : Hierarchy) (a b : String) : Prop := a ≠ objectClass ∧ h.Super a b

/-- No class is above itself. -/
def Acyclic (h : Hierarchy) : Prop := ∀ a, ¬ TransGen h.Super a a

variable {h : Hierarchy} {a b c t : String} {n : Nat}

/-! ### What the walk finds -/

lemma transGen_climbs_iff :
    TransGen h.Climbs a t ↔ a ≠ objectClass ∧
    ∃ s, h.super? a = some s ∧ (s = t ∨ TransGen h.Climbs s t) := by
  rw [TransGen.head'_iff]
  simp only [Climbs, Super, reflTransGen_iff_eq_or_transGen, and_assoc, exists_and_left,
    eq_comm (a := t)]

/-- The walk finds what is above a class, up to the root. It says no at the root only. -/
lemma climb_spec {r : Extends} (hc : h.climb t n a = some r) :
    (r = .yes ↔ TransGen h.Climbs a t) ∧ (r = .no → ReflTransGen h.Climbs a objectClass) := by
  induction n generalizing a with
  | zero => cases hc
  | succ n ih =>
    rw [climb] at hc
    rw [transGen_climbs_iff]
    by_cases ha : a = objectClass
    · rw [if_pos ha] at hc
      have hr : r ≠ .yes := by
        rw [← Option.some.inj hc]
        split <;> simp
      exact ⟨by simp [hr, ha], fun _ => ha ▸ .refl⟩
    rw [if_neg ha] at hc
    cases hs : h.super? a with
    | none =>
      obtain rfl : .unknown = r := by simpa [hs] using hc
      simp
    | some s =>
      by_cases hst : s = t
      · obtain rfl : .yes = r := by simpa [hs, hst] using hc
        simp [ha, hst]
      · obtain ⟨hyes, hno⟩ := ih (by simpa [hs, hst] using hc)
        exact ⟨by simp [ha, hst, hyes], fun hr => .head ⟨ha, hs⟩ (hno hr)⟩

/-- A target above a class is found in the steps that a walk is given. -/
lemma stops_of_climbs (ht : TransGen h.Climbs a t) : h.Stops t a := by
  induction ht using TransGen.head_induction_on with
  | single hs => exact .found hs.2
  | head hs _ ih => exact .step hs.2 ih

lemma isSubclass_cases (h : Hierarchy) (a b : String) :
    (a = b ∨ b = objectClass) ∧ h.isSubclass a b = some .yes ∨ ¬ (a = b ∨ b = objectClass) ∧
    ¬ (h.IsClass a ∧ h.IsClass b) ∧ h.isSubclass a b = some .unknown ∨ ¬ (a = b ∨ b = objectClass) ∧
    (h.IsClass a ∧ h.IsClass b) ∧
    h.isSubclass a b = h.climb b (h.declared.length + platform.length + 2) a := by
  unfold isSubclass
  split_ifs with hsame harray hiface
  · exact .inl ⟨hsame, rfl⟩
  · exact .inr (.inl ⟨hsame, fun ⟨ha, hb⟩ => by simp [ha.1, hb.1] at harray, rfl⟩)
  · exact .inr (.inl ⟨hsame, fun ⟨ha, hb⟩ => by simp [ha.2, hb.2] at hiface, rfl⟩)
  · simp only [Bool.or_eq_true, not_or, Bool.not_eq_true] at harray hiface
    exact .inr (.inr ⟨hsame, ⟨⟨harray.1, hiface.1⟩, harray.2, hiface.2⟩, rfl⟩)

/-- A class is found to be a subclass of itself, of the root and of what is above it. -/
lemma isSubclass_eq_yes_iff : h.isSubclass a b = some .yes ↔
      a = b ∨ b = objectClass ∨ (h.IsClass a ∧ h.IsClass b) ∧ TransGen h.Climbs a b := by
  rw [← or_assoc]
  obtain ⟨hsame, hyes⟩ | ⟨hsame, hplain, hyes⟩ | ⟨hsame, hplain, hyes⟩ :=
    isSubclass_cases h a b <;> rw [hyes]
  · simp [hsame]
  · simp [hsame, hplain]
  · simp only [hsame, hplain, true_and, false_or]
    refine ⟨fun hc => (climb_spec hc).1.1 rfl, fun ht => ?_⟩
    cases hc : h.climb b (h.declared.length + platform.length + 2) a with
    | none => exact absurd (stops_of_climbs ht) ((climb_eq_none_iff (by omega)).1 hc)
    | some r => rw [(climb_spec hc).1.2 ht]

/-- If it is found not to be one, the walk has come to the root. -/
lemma isSubclass_eq_no (hno : h.isSubclass a b = some .no) :
    a ≠ b ∧ ¬ TransGen h.Climbs a b ∧ ReflTransGen h.Climbs a objectClass := by
  obtain ⟨-, hyes⟩ | ⟨-, -, hyes⟩ | ⟨hsame, -, hyes⟩ := isSubclass_cases h a b <;> rw [hyes] at hno
  · cases hno
  · cases hno
  · obtain ⟨hyes, hroot⟩ := climb_spec hno
    exact ⟨fun he => hsame (.inl he), fun ht => (by cases hyes.2 ht), hroot rfl⟩

/-! ### Hierarchies without cycles -/

lemma Climbs.super (hab : h.Climbs a b) : h.Super a b := hab.2

/-- A class has one superclass, so what is above it is a chain. -/
lemma Super.total (ha : ReflTransGen h.Super c a) (hb : ReflTransGen h.Super c b) :
    ReflTransGen h.Super a b ∨ ReflTransGen h.Super b a := by
  refine ReflTransGen.total_of_right_unique (fun x y z hy hz => ?_) ha hb
  exact Option.some.inj (Eq.trans (Eq.symm hy) hz)

/-- Above a class there is what the walk comes to and what is above the root. -/
lemma Super.climbs_or_root (hab : TransGen h.Super a b) :
    TransGen h.Climbs a b ∨ ReflTransGen h.Climbs a objectClass ∧
    TransGen h.Super objectClass b := by
  induction hab using TransGen.head_induction_on with
  | @single a hs =>
    by_cases ha : a = objectClass
    · exact .inr ⟨ha ▸ .refl, ha ▸ .single hs⟩
    · exact .inl (.single ⟨ha, hs⟩)
  | @head a c hs hcb ih =>
    by_cases ha : a = objectClass
    · exact .inr ⟨ha ▸ .refl, ha ▸ .head hs hcb⟩
    · rcases ih with hc | ⟨hc, hb⟩
      · exact .inl (.head ⟨ha, hs⟩ hc)
      · exact .inr ⟨.head ⟨ha, hs⟩ hc, hb⟩

namespace Acyclic

/-- Of finitely many classes none comes back to itself, so superclasses end. -/
lemma ending (hh : h.Acyclic) : h.Ending := by
  have hwf : WellFounded fun x y : {x // x ∈ h.known} => TransGen h.Super y.1 x.1 := by
    have : IsTrans {x // x ∈ h.known} fun x y => TransGen h.Super y.1 x.1 :=
      ⟨fun _ _ _ hxy hyz => hyz.trans hxy⟩
    have : Std.Irrefl fun x y : {x // x ∈ h.known} => TransGen h.Super y.1 x.1 := ⟨fun x => hh x⟩
    exact Finite.wellFounded_of_trans_of_irrefl _
  have hends (x : {x // x ∈ h.known}) : h.Ends x := by
    induction x using hwf.induction with
    | _ x ih =>
      cases hs : h.super? x with
      | none => exact .unknown hs
      | some s =>
        refine .step hs ?_
        cases hs' : h.super? s with
        | none => exact .unknown hs'
        | some _ => exact ih ⟨s, mem_known hs'⟩ (.single hs)
  intro a
  cases hs : h.super? a with
  | none => exact .unknown hs
  | some _ => exact hends ⟨a, mem_known hs⟩

/-- Unrelated classes are not above one another: else the root would be above itself. -/
lemma not_above (hh : h.Acyclic) (hab : h.isSubclass a b = some .no)
    (hba : h.isSubclass b a = some .no) : ¬ ReflTransGen h.Super a b := by
  obtain ⟨hne, hnot, -⟩ := isSubclass_eq_no hab
  obtain ⟨-, -, hroot⟩ := isSubclass_eq_no hba
  intro hrise
  rcases reflTransGen_iff_eq_or_transGen.1 hrise with he | hrise
  · exact hne he.symm
  · rcases Super.climbs_or_root hrise with hc | ⟨-, hc⟩
    · exact hnot hc
    · exact hh _ (hc.trans_left (hroot.lift id fun _ _ => Climbs.super))

/-- Unrelated classes have no subclass in common. -/
lemma not_common (hh : h.Acyclic) (hu : h.unrelated a b = some true) :
    ¬ (ReflTransGen h.Super c a ∧ ReflTransGen h.Super c b) := by
  rintro ⟨ha, hb⟩
  obtain ⟨ab, hab, hu⟩ := Option.bind_eq_some_iff.1 hu
  obtain ⟨ba, hba, hu⟩ := Option.bind_eq_some_iff.1 hu
  obtain ⟨rfl, rfl⟩ : ab = .no ∧ ba = .no := by simpa using hu
  rcases Super.total ha hb with hrise | hrise
  · exact hh.not_above hab hba hrise
  · exact hh.not_above hba hab hrise

end Acyclic

/-- There is no cycle where the superclasses that are given are left after some steps. -/
lemma acyclic_of_supers (supers : List String)
    (hsupers : ∀ e ∈ h.declared ++ platform, e.2.super ∈ supers) (n : Nat)
    (hn : ∀ s ∈ supers, (Option.bind · h.super?)^[n] (some s) = none) : h.Acyclic := by
  have hnext {x : String} (hx : TransGen h.Super x x) :
      ∃ y, h.super? x = some y ∧ TransGen h.Super y y := by
    obtain ⟨y, hxy, hyx⟩ := TransGen.head'_iff.1 hx
    exact ⟨y, hxy, .tail' hyx hxy⟩
  have hchain (n : Nat) {x : String} (hx : TransGen h.Super x x) :
      (Option.bind · h.super?)^[n] (some x) ≠ none := by
    induction n generalizing x with
    | zero => simp
    | succ n ih =>
      obtain ⟨y, hy, hyy⟩ := hnext hx
      rw [Function.iterate_succ_apply, Option.bind_some, hy]
      exact ih hyy
  intro a ha
  obtain ⟨y, hy, hyy⟩ := hnext ha
  obtain ⟨info, hinfo, rfl⟩ := Option.map_eq_some_iff.1 hy
  exact hchain n hyy (hn _ (hsupers _ (mem_of_lookup? hinfo)))

end Hierarchy

/-! ### Conversions -/

namespace Lowering

variable {α β : Type} {env : Env} {Q : Prop} {x y : Lower α} {f : α → Lower β}

/-- A computation fails with a mismatch only if something holds. -/
def Blames (env : Env) (x : Lower α) (Q : Prop) : Prop :=
  ∀ ⦃σ place m⦄, x env σ = .error (.cause place (.mismatch m)) → Q

namespace Blames

lemma pure (r : α) : Blames env (pure r : Lower α) Q := fun _ _ _ h => by cases h

lemma bind (hx : Blames env x Q) (hf : ∀ r, Blames env (f r) Q) : Blames env (x >>= f) Q := by
  intro σ place m h
  change (x env σ >>= fun r => f r.1 env r.2) = _ at h
  cases hr : x env σ with
  | error e =>
    rw [hr] at h
    exact hx (hr.trans (congrArg _ (Except.error.inj h)))
  | ok r =>
    rw [hr] at h
    exact hf r.1 h

lemma ite {p : Prop} [Decidable p] (hx : p → Blames env x Q) (hy : ¬ p → Blames env y Q) :
    Blames env (if p then x else y) Q := by
  split
  · next h => exact hx h
  · next h => exact hy h

lemma read_bind {f : Env → Lower β} (h : Blames env (f env) Q) : Blames env (read >>= f) Q :=
  fun _ _ _ he => h he

lemma decided_bind {o : Option α} (h : ∀ r, o = some r → Blames env (f r) Q) :
    Blames env (decided o >>= f) Q := by
  intro σ place m he
  cases o with
  | none => cases he
  | some r => exact h r rfl he

lemma checkCast (ty : Ty) : Blames env (checkCast ty) Q := by
  refine .bind (.bind ?_ fun _ _ _ _ h => by cases h) fun _ _ _ _ h => by cases h
  intro σ place m h
  cases hi : ty.internal <;> rw [hi] at h <;> cases h

end Blames

lemma blames_assignable (a b : Erased) : Blames env (assignable a b) Q := by
  unfold assignable
  refine .ite (fun _ => .pure _) fun _ => ?_
  split
  · refine .read_bind (.ite (fun _ => .pure _) fun _ => ?_)
    split
    · exact .decided_bind fun _ _ => .pure _
    · exact .pure _
  · exact .pure _

/-- A conversion of references is refused between classes that are unrelated only. -/
lemma blames_coerceRef (a b : Erased) :
    Blames env (coerceRef a b)
    (∃ c d, a = .cls c ∧ b = .cls d ∧ env.unit.hierarchy.unrelated c.internal d.internal =
    some true) := by
  unfold coerceRef
  refine .bind (blames_assignable a b) fun _ => .ite (fun _ => .pure _) fun _ => ?_
  split
  · next c =>
    split
    · next d =>
      refine .read_bind (.decided_bind fun r hr => .ite (fun ht => ?_) fun _ => .checkCast _)
      exact fun _ _ _ _ => ⟨c, d, rfl, rfl, ht ▸ hr⟩
    · exact .checkCast _
  · exact .checkCast _

end Lowering

namespace Hierarchy

/-- **Unrelated classes have no subclass in common**, where no class is above itself, so that a
conversion is refused only where no object has both classes. A class is found to be a subclass of
itself, of the root and, unless one of them is an array or an interface, of what is above it up to
the root. -/
theorem unrelated_spec (hh : h.Acyclic) (a b : String) :
    (h.isSubclass a b = some .yes ↔
      a = b ∨ b = objectClass ∨ (h.IsClass a ∧ h.IsClass b) ∧ TransGen h.Climbs a b) ∧
    (∃ r, h.unrelated a b = some r ∧ h.unrelated b a = some r) ∧
    (h.unrelated a b = some true → ∀ x, ¬ (ReflTransGen h.Super x a ∧ ReflTransGen h.Super x b)) ∧
    ∀ (env : Lowering.Env) (σ : Lowering.State) (d e : Erased) (place : Option String)
        (m : Lowering.Mismatch), env.unit.hierarchy = h →
      Lowering.coerceRef d e env σ = .error (.cause place (.mismatch m)) →
      ∃ c c', d = .cls c ∧ e = .cls c' ∧
        ∀ x, ¬ (ReflTransGen h.Super x c.internal ∧ ReflTransGen h.Super x c'.internal) := by
  refine ⟨isSubclass_eq_yes_iff, ?_, fun hu x => hh.not_common hu, ?_⟩
  · obtain ⟨ab, hab⟩ := Option.ne_none_iff_exists'.1 (hh.ending.isSubclass_ne_none a b)
    obtain ⟨ba, hba⟩ := Option.ne_none_iff_exists'.1 (hh.ending.isSubclass_ne_none b a)
    exact ⟨ab == .no && ba == .no, by simp [unrelated, hab, hba],
      by simp [unrelated, hab, hba, Bool.and_comm]⟩
  · rintro env σ d e place m rfl he
    obtain ⟨c, c', rfl, rfl, hu⟩ := Lowering.blames_coerceRef d e he
    exact ⟨c, c', rfl, rfl, fun x => hh.not_common hu⟩

/-- The platform, with a superclass for the root. -/
def raisedRoot : Hierarchy := ⟨[(objectClass, ⟨"U", false⟩)]⟩

/-- The walk does not go on to a superclass of the root. -/
theorem isSubclass_raisedRoot :
    raisedRoot.Acyclic ∧ raisedRoot.IsClass objectClass ∧ raisedRoot.IsClass "U" ∧
    TransGen raisedRoot.Super objectClass "U" ∧
    raisedRoot.isSubclass objectClass "U" = some .unknown :=
  ⟨acyclic_of_supers ("U" :: platformSupers) (by decide +kernel) 7 (by decide +kernel),
    by decide +kernel, by decide +kernel, .single (by unfold Super; decide +kernel),
    by decide +kernel⟩

theorem unrelated_string_integer : ({} : Hierarchy).Acyclic ∧
    ({} : Hierarchy).unrelated "java/lang/String" "java/lang/Integer" = some true ∧
    ∀ x, ¬ (ReflTransGen ({} : Hierarchy).Super x "java/lang/String" ∧
      ReflTransGen ({} : Hierarchy).Super x "java/lang/Integer") := by
  have hh : ({} : Hierarchy).Acyclic :=
    acyclic_of_supers platformSupers (by decide +kernel) 6 (by decide +kernel)
  have hu : ({} : Hierarchy).unrelated "java/lang/String" "java/lang/Integer" = some true := by
    decide +kernel
  exact ⟨hh, hu, (unrelated_spec hh "java/lang/String" "java/lang/Integer").2.2.1 hu⟩

end Hierarchy

end Classwright
