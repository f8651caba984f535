import Classwright.Proofs.Frame.Ancestry

/-!
Questions about subclasses.

A walk up the superclasses of a class stops at the class it looks for, at the root or at a class
that is not known. If it does not, it goes round in a cycle, and there is no answer.

* `Hierarchy.Stops`: a walk that stops.
* `Hierarchy.climb_eq_none_iff`: the steps that a walk is given are enough to tell.
* `Hierarchy.isSubclass_eq_none_iff`: which questions have no answer.
* `Hierarchy.Ending.isSubclass_ne_none`: where superclasses end, all have one.
-/

namespace Classwright

namespace Hierarchy

/-- A walk up from a class stops: it comes to the target, to the root or to a class that is not
known. -/
inductive Stops (h : Hierarchy) (target : String) : String → Prop
  | root : Stops h target objectClass
  | unknown {a : String} (ha : h.super? a = none) : Stops h target a
  | found {a : String} (ha : h.super? a = some target) : Stops h target a
  | step {a s : String} (ha : h.super? a = some s) (hs : Stops h target s) : Stops h target a

variable {h : Hierarchy} {a b s t x : String} {m n : Nat}

lemma Ends.stops (ha : h.Ends a) (t : String) : h.Stops t a := by
  induction ha with
  | root => exact .root
  | unknown ha => exact .unknown ha
  | step ha _ ih => exact .step ha ih

/-- The one way for a walk to go on. -/
lemma climb_succ_eq_none_iff : h.climb t (n + 1) a = none ↔
      a ≠ objectClass ∧ ∃ s, h.super? a = some s ∧ s ≠ t ∧ h.climb t n s = none := by
  rw [climb]
  by_cases ha : a = objectClass
  · simp [ha]
  rw [if_neg ha]
  cases hs : h.super? a with
  | none => simp
  | some s => by_cases hst : s = t <;> simp [ha, hst]

/-- A walk stops if it does so within some number of steps. -/
lemma stops_iff_exists_climb : h.Stops t a ↔ ∃ n, h.climb t n a ≠ none := by
  constructor
  · intro hs
    induction hs with
    | root => exact ⟨1, by simp [climb_succ_eq_none_iff]⟩
    | unknown ha => exact ⟨1, by simp [climb_succ_eq_none_iff, ha]⟩
    | found ha => exact ⟨1, by simp [climb_succ_eq_none_iff, ha]⟩
    | step ha _ ih =>
      obtain ⟨n, hn⟩ := ih
      exact ⟨n + 1, by simp [climb_succ_eq_none_iff, ha, hn]⟩
  · rintro ⟨n, hn⟩
    induction n generalizing a with
    | zero => exact absurd rfl hn
    | succ n ih =>
      by_cases ha : a = objectClass
      · exact ha ▸ .root
      cases hs : h.super? a with
      | none => exact .unknown hs
      | some s =>
        by_cases hst : s = t
        · exact .found (hst ▸ hs)
        · refine .step hs (ih fun hnone => hn ?_)
          exact climb_succ_eq_none_iff.2 ⟨ha, s, hs, hst, hnone⟩

/-! ### How many steps are enough -/

/-- A walk stops after `n` steps and not before. -/
def StopsAt (h : Hierarchy) (t : String) (n : Nat) (a : String) : Prop :=
  h.climb t n a ≠ none ∧ ∀ m, m < n → h.climb t m a = none

lemma Stops.exists_stopsAt (hs : h.Stops t a) : ∃ n, h.StopsAt t n a := by
  classical
  have hex := stops_iff_exists_climb.1 hs
  exact ⟨Nat.find hex, Nat.find_spec hex, fun m hm => not_not.1 (Nat.find_min hex hm)⟩

lemma StopsAt.unique (hm : h.StopsAt t m a) (hn : h.StopsAt t n a) : m = n := by
  rcases lt_trichotomy m n with hlt | he | hlt
  · exact absurd (hn.2 m hlt) hm.1
  · exact he
  · exact absurd (hm.2 n hlt) hn.1

/-- A walk that does not stop at once goes on from the superclass. -/
lemma StopsAt.super (ha : h.StopsAt t (n + 2) a) :
    ∃ s, h.super? a = some s ∧ h.StopsAt t (n + 1) s := by
  obtain ⟨hne, s, hs, hst, -⟩ := climb_succ_eq_none_iff.1 (ha.2 (n + 1) (by omega))
  refine ⟨s, hs, fun hnone => ha.1 ?_, fun m hm => ?_⟩
  · exact climb_succ_eq_none_iff.2 ⟨hne, s, hs, hst, hnone⟩
  · obtain ⟨-, s', hs', -, hnone⟩ := climb_succ_eq_none_iff.1 (ha.2 (m + 1) (by omega))
    obtain rfl : s = s' := Option.some.inj (hs.symm.trans hs')
    exact hnone

def known (h : Hierarchy) : List String := (h.declared ++ platform).map (·.1)

lemma mem_known (hs : h.super? a = some s) : a ∈ h.known := by
  obtain ⟨info, hinfo, -⟩ := Option.map_eq_some_iff.1 hs
  exact List.mem_map.2 ⟨(a, info), mem_of_lookup? hinfo, rfl⟩

/-- The classes of a walk stop after different numbers of steps, and all but the last are known. -/
lemma StopsAt.exists_known (ha : h.StopsAt t (n + 1) a) (hm : m < n) :
    ∃ x ∈ h.known, h.StopsAt t (m + 2) x := by
  induction n generalizing a with
  | zero => omega
  | succ n ih =>
    obtain ⟨s, hs, hstop⟩ := ha.super
    rcases Nat.lt_succ_iff_lt_or_eq.1 hm with hlt | rfl
    · exact ih hstop hlt
    · exact ⟨a, mem_known hs, ha⟩

/-- A walk stops after one step more than there are known classes, if it stops. -/
lemma StopsAt.le (ha : h.StopsAt t n a) : n ≤ h.declared.length + platform.length + 1 := by
  cases n with
  | zero => omega
  | succ n =>
    -- For each number of steps there is a known class of its own.
    choose! x hx hstop using fun m (hm : m < n) => ha.exists_known hm
    have hinj : Set.InjOn x (Finset.range n) := by
      intro i hi j hj hij
      have hi' := hstop i (Finset.mem_range.1 hi)
      have hj' := hstop j (Finset.mem_range.1 hj)
      rw [hij] at hi'
      have := hi'.unique hj'
      omega
    have hcard := Finset.card_le_card_of_injOn (t := h.known.toFinset) x
      (fun m hm => List.mem_toFinset.2 (hx m (Finset.mem_range.1 hm))) hinj
    have hlen : h.known.toFinset.card ≤ h.declared.length + platform.length := by
      refine (List.toFinset_card_le _).trans ?_
      simp [known]
    rw [Finset.card_range] at hcard
    omega

/-- Superclasses end where a walk does not find its target. -/
lemma ends_of_climb (ha : h.climb t n a = some .unknown) : h.Ends a := by
  induction n generalizing a with
  | zero => cases ha
  | succ n ih =>
    rw [climb] at ha
    by_cases hr : a = objectClass
    · exact hr ▸ .root
    rw [if_neg hr] at ha
    cases hs : h.super? a with
    | none => exact .unknown hs
    | some s =>
      by_cases hst : s = t
      · simp [hs, hst] at ha
      · exact .step hs (ih (by simpa [hs, hst] using ha))

/-- It is enough to walk up from known classes, in search of one that is not known. -/
lemma ending_of_known (hk : ∀ x ∈ h.known, h.climb t n x = some .unknown) : h.Ending := by
  intro a
  cases hs : h.super? a with
  | none => exact .unknown hs
  | some s => exact ends_of_climb (hk a (mem_known hs))

/-- The classes that have platform classes below them. -/
def platformSupers : List String := "" :: objectClass :: platformBelow.map (·.1)

/-- No class of the platform extends an array. -/
lemma grounded_platform : Grounded {} := by
  have hends : ({} : Hierarchy).Ending := ending_of_known (t := "?") (n := 9) (by decide +kernel)
  have hsupers : ∀ e ∈ ({} : Hierarchy).declared ++ platform, isArrayClass e.2.super = false := by
    decide +kernel
  refine ⟨fun _ => hends.rises _, fun {a} _ hp => absurd hp ?_⟩
  unfold parent
  split
  · next hs =>
    obtain ⟨info, hinfo, rfl⟩ := Option.map_eq_some_iff.1 hs
    split
    · decide
    · simp [hsupers _ (mem_of_lookup? hinfo)]
  · decide

lemma climb_mono (hmn : m ≤ n) (ha : h.climb t n a = none) : h.climb t m a = none := by
  induction m generalizing n a with
  | zero => rfl
  | succ m ih =>
    obtain ⟨n, rfl⟩ := Nat.exists_eq_add_of_le' (Nat.le_of_add_left_le hmn)
    obtain ⟨hne, s, hs, hst, hnone⟩ := climb_succ_eq_none_iff.1 ha
    exact climb_succ_eq_none_iff.2 ⟨hne, s, hs, hst, ih (by omega) hnone⟩

/-- No walk that stops takes more steps than the classes there are. -/
lemma climb_eq_none_iff (hn : h.declared.length + platform.length + 1 ≤ n) :
    h.climb t n a = none ↔ ¬ h.Stops t a := by
  refine ⟨fun hnone hs => ?_, fun hs => ?_⟩
  · obtain ⟨m, hm⟩ := hs.exists_stopsAt
    exact hm.1 (climb_mono (hm.le.trans hn) hnone)
  · by_contra hne
    exact hs (stops_iff_exists_climb.2 ⟨n, hne⟩)

/-! ### Questions without an answer -/

/-- A question has no answer where both are classes and a walk up from the first does not stop. -/
theorem isSubclass_eq_none_iff : h.isSubclass a b = none ↔
      (a ≠ b ∧ b ≠ objectClass) ∧ (isArrayClass a = false ∧ isArrayClass b = false) ∧
        (h.isInterface a = false ∧ h.isInterface b = false) ∧ ¬ h.Stops b a := by
  unfold isSubclass
  split_ifs with hsame harray hiface
  · simp only [false_iff]
    rintro ⟨⟨hab, hb⟩, -⟩
    exact hsame.elim hab hb
  · simp only [false_iff]
    rintro ⟨-, ⟨ha, hb⟩, -⟩
    simp [ha, hb] at harray
  · simp only [false_iff]
    rintro ⟨-, -, ⟨ha, hb⟩, -⟩
    simp [ha, hb] at hiface
  · rw [climb_eq_none_iff (by omega)]
    simp only [not_or] at hsame
    simp only [Bool.or_eq_true, not_or, Bool.not_eq_true] at harray hiface
    exact ⟨fun hs => ⟨hsame, harray, hiface, hs⟩, fun hs => hs.2.2.2⟩

/-- Where superclasses end, all questions have an answer. -/
lemma Ending.isSubclass_ne_none (hh : h.Ending) (a b : String) : h.isSubclass a b ≠ none := by
  rw [Ne, isSubclass_eq_none_iff]
  rintro ⟨-, -, -, hs⟩
  exact hs ((hh a).stops b)

lemma Ending.unrelated_ne_none (hh : h.Ending) (a b : String) : h.unrelated a b ≠ none := by
  obtain ⟨ab, hab⟩ := Option.ne_none_iff_exists'.1 (hh.isSubclass_ne_none a b)
  obtain ⟨ba, hba⟩ := Option.ne_none_iff_exists'.1 (hh.isSubclass_ne_none b a)
  simp [unrelated, hab, hba]

end Hierarchy

end Classwright
