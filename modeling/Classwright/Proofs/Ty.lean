import Classwright.Ty.Basic
import Mathlib.Tactic

/-!
Types that are written alike.

Types are compared along the first of the two, and a layer of annotations is taken off the second at
each part. As long as no annotated type is annotated again, this compares what is left without
annotations (`Ty.bare`), and so is an equivalence (`Ty.equivalence_same`).
-/

namespace Classwright.Ty

mutual

/-- A type without absent parts, in which no annotated type is annotated again. The bounds of a
variable are not looked at. -/
def Plain : Ty → Prop
  | absent => False
  | prim _ | cls _ | var _ _ => True
  | generic _ args => AllPlain args
  | wildcard upper lower => AllPlain upper ∧ AllPlain lower
  | array of _ => of.Plain
  | annotated of _ => (∀ t marks, of ≠ annotated t marks) ∧ of.Plain

def AllPlain : List Ty → Prop
  | [] => True
  | t :: ts => t.Plain ∧ AllPlain ts

end

mutual

/-- A type without annotations, kinds and nullability of classes, and bounds of variables. -/
def bare : Ty → Ty
  | absent => absent
  | prim p => prim p
  | cls c => cls { name := c.name }
  | generic raw args => generic { name := raw.name } (bareAll args)
  | wildcard upper lower => wildcard (bareAll upper) (bareAll lower)
  | var name _ => var name []
  | array of dims => array of.bare dims
  | annotated of _ => of.bare

def bareAll : List Ty → List Ty
  | [] => []
  | t :: ts => t.bare :: bareAll ts

end

/-- Below one layer of annotations is none. -/
lemma Plain.exists_strip {t : Ty} (h : t.Plain) :
    ∃ s, t.strip = s ∧ t.bare = s.bare ∧ s.Plain ∧ ∀ of marks, s ≠ annotated of marks := by
  cases t with
  | annotated of marks => exact ⟨of, rfl, rfl, h.2, h.1⟩
  | _ => exact ⟨_, rfl, rfl, h, nofun⟩

mutual

lemma same_iff_bare_eq : ∀ {a b : Ty}, a.Plain → b.Plain → (a.same b ↔ a.bare = b.bare)
  | absent, _, ha, _ => ha.elim
  | annotated a _, b, ha, hb => by
    obtain ⟨s, hs, hbare, hplain, -⟩ := hb.exists_strip
    rw [same, hs, bare, hbare, same_iff_bare_eq ha.2 hplain]
  | prim _, b, _, hb | cls _, b, _, hb | var _ _, b, _, hb => by
    obtain ⟨s, hs, hbare, -, hne⟩ := hb.exists_strip
    rw [same, hs, hbare]
    cases s with
    | annotated of marks => exact absurd rfl (hne of marks)
    | _ => simp [bare]
  | generic raw args, b, ha, hb => by
    obtain ⟨s, hs, hbare, hplain, hne⟩ := hb.exists_strip
    rw [same, hs, hbare]
    cases s with
    | annotated of marks => exact absurd rfl (hne of marks)
    | generic raw' args' => simp [bare, sameAll_iff_bareAll_eq (s := args) ha (t := args') hplain]
    | _ => simp [bare]
  | wildcard upper lower, b, ha, hb => by
    obtain ⟨s, hs, hbare, hplain, hne⟩ := hb.exists_strip
    rw [same, hs, hbare]
    cases s with
    | annotated of marks => exact absurd rfl (hne of marks)
    | wildcard upper' lower' =>
      simp [bare, sameAll_iff_bareAll_eq ha.1 hplain.1, sameAll_iff_bareAll_eq ha.2 hplain.2]
    | _ => simp [bare]
  | array of dims, b, ha, hb => by
    obtain ⟨s, hs, hbare, hplain, hne⟩ := hb.exists_strip
    rw [same, hs, hbare]
    cases s with
    | annotated of marks => exact absurd rfl (hne of marks)
    | array of' dims' => simp [bare, same_iff_bare_eq (a := of) ha (b := of') hplain, and_comm]
    | _ => simp [bare]

lemma sameAll_iff_bareAll_eq : ∀ {s t : List Ty}, AllPlain s → AllPlain t →
    (sameAll s t ↔ bareAll s = bareAll t)
  | [], [], _, _ => by simp [sameAll]
  | [], _ :: _, _, _ | _ :: _, [], _, _ => by simp [sameAll, bareAll]
  | a :: as, b :: bs, ha, hb => by
    simp [sameAll, bareAll, same_iff_bare_eq ha.1 hb.1, sameAll_iff_bareAll_eq ha.2 hb.2]

end

/-- **Types are the same up to annotations.** Two types without absent parts, in which no annotated
type is annotated again, are the same exactly if they are equal without annotations, class kinds,
nullability and bounds of variables. So these types fall into classes of types that are the same. -/
theorem equivalence_same : (∀ a b : Ty, a.Plain → b.Plain → (a.same b ↔ a.bare = b.bare)) ∧
    Equivalence fun a b : {t : Ty // t.Plain} => a.1.same b.1 := by
  have hrel : (fun a b : {t : Ty // t.Plain} => (a.1.same b.1 : Prop)) =
      InvImage Eq (bare ·.1) := by
    ext a b
    exact same_iff_bare_eq a.2 b.2
  exact ⟨fun a b => same_iff_bare_eq, hrel ▸ InvImage.equivalence _ _ eq_equivalence⟩

/-- A wildcard bounded by an annotated array of an annotated variable, and the same without
annotations. -/
theorem equivalence_same_nested :
    (generic ⟨"List", .interface, true⟩ [annotated
      (wildcard [annotated (array (annotated (var "T" [absent]) ["A"]) 2) []] []) ["B"]]).same
    (annotated (generic ⟨"List", .ordinary, false⟩ [wildcard [array (var "T" []) 2] []])
      ["C"]) := by
  refine (equivalence_same.1 _ _ ?_ ?_).2 rfl
  · exact ⟨⟨nofun, ⟨⟨nofun, nofun, trivial⟩, trivial⟩, trivial⟩, trivial⟩
  · exact ⟨nofun, ⟨⟨trivial, trivial⟩, trivial⟩, trivial⟩

end Classwright.Ty
