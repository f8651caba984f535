import Classwright.Name
import Classwright.Proofs.ClassFile.Descriptors

/-!
Types that are one at run time.

A descriptor tells how many brackets it starts with, and behind them a primitive from a class and
one class from another: the name of a class is read back off its internal name, since a checked name
has no slash (`slash_notMem`). So two types have one descriptor exactly if their erasures are the
same but for the kind of a class and for how the dimensions of arrays of arrays are grouped
(`Erased.descriptor_eq_iff`).
-/

namespace Classwright

open List

/-! ### Checked names -/

/-- The edges of a class of characters above one that is above a code point do not matter to it. -/
lemma Text.inside_ends {l : List Nat} {last code : Nat} (hlast : (ends l.toArray).back? = some last)
    (hlt : code < last) (high : List Nat) :
    inside (ends (l ++ high).toArray) code = inside (ends l.toArray) code := by
  have hedges (edges : Array Nat) {last : Nat} (hlast : edges.back? = some last)
      (hlt : code < last) :
      inside (high.foldl (fun edges gap => edges.push (edges.back?.getD 0 + gap)) edges) code =
        inside edges code := by
    induction high generalizing edges last with
    | nil => rfl
    | cons gap high ih =>
      have hskip : ¬ last + gap ≤ code := by omega
      rw [foldl_cons, hlast, Option.getD_some, ih _ Array.back?_push (Nat.lt_add_right gap hlt)]
      simp [inside, hskip]
  rw [ends, foldl_toArray, foldl_append]
  rw [ends, foldl_toArray] at hlast ⊢
  exact hedges _ hlast hlt

lemma isNamePart_slash : isNamePart '/' = false := by
  -- The tables are long: only the first edge of each is evaluated.
  have hletter : Text.isLetter '/' = false := Text.inside_ends (l := [65]) rfl (by decide) _
  have hdigit : Text.isDigit '/' = false := Text.inside_ends (l := [48]) rfl (by decide) _
  simp [isNamePart, isNameStart, hletter, hdigit]

/-- A character that does not divide a text is in one of its parts. -/
lemma exists_mem_pieces {c x : Char} {s : String} (hx : x ∈ s.toList) (hc : x ≠ c) :
    ∃ p ∈ pieces c s, x ∈ p.toList := by
  unfold pieces
  simp only [mem_map, exists_exists_and_eq_and, String.toList_ofList]
  revert hx
  induction s.toList with
  | nil => exact fun hx => absurd hx not_mem_nil
  | cons y cs ih =>
    intro hx
    rw [foldr_cons]
    obtain rfl | hx := mem_cons.1 hx
    · rw [if_neg hc]
      split <;> simp
    · obtain ⟨p, hp, hxp⟩ := ih hx
      grind

lemma exists_mem_nameSegments {x : Char} {name : String} (hx : x ∈ name.toList) (hdot : x ≠ '.')
    (hdollar : x ≠ '$') : ∃ p ∈ nameSegments name, x ∈ p.toList := by
  obtain ⟨p, hp, hxp⟩ := exists_mem_pieces hx hdot
  have hne := ne_nil_of_mem hp
  unfold nameSegments
  simp only [getLast?_eq_some_getLast hne, Option.map_some, Option.getD_some, mem_append]
  rw [← dropLast_append_getLast hne, mem_append, mem_singleton] at hp
  obtain hp | hlast := hp
  · exact ⟨p, .inl hp, hxp⟩
  · obtain ⟨q, hq, hxq⟩ := exists_mem_pieces (hlast ▸ hxp) hdollar
    exact ⟨q, .inr hq, hxq⟩

lemma checkTypeName_eq_ok_iff {name : String} : checkTypeName name = .ok () ↔
    name.isEmpty = false ∧ ∀ segment ∈ nameSegments name, checkIdentifier segment = .ok () := by
  unfold checkTypeName
  split
  · simp_all
  · next hempty =>
    rw [Bool.not_eq_true] at hempty
    simp only [hempty, true_and]
    induction nameSegments name with
    | nil => exact iff_of_true rfl (by simp)
    | cons segment segments ih =>
      rw [forall_mem_cons, ← ih]
      exact Except.bind_eq_ok_iff.trans ⟨fun ⟨⟨⟩, h, hs⟩ => ⟨Except.mapError_eq_ok_iff.1 h, hs⟩,
        fun ⟨h, hs⟩ => ⟨(), Except.mapError_eq_ok_iff.2 h, hs⟩⟩

lemma isNamePart_of_checkIdentifier {name : String} (h : checkIdentifier name = .ok ()) :
    ∀ c ∈ name.toList, isNamePart c := by
  unfold checkIdentifier at h
  split at h
  · cases h
  · next c cs hname =>
    split_ifs at h with hreserved hparts
    rw [Bool.and_eq_true, all_eq_true] at hparts
    rw [hname]
    exact forall_mem_cons.2 ⟨by simp [isNamePart, hparts.1], hparts.2⟩

/-- A checked name has no slash. -/
lemma slash_notMem {name : String} (h : checkTypeName name = .ok ()) : '/' ∉ name.toList := by
  intro hslash
  obtain ⟨segment, hsegment, hmem⟩ := exists_mem_nameSegments hslash (by decide) (by decide)
  have hpart :=
    isNamePart_of_checkIdentifier ((checkTypeName_eq_ok_iff.1 h).2 segment hsegment) _ hmem
  rw [isNamePart_slash] at hpart
  cases hpart

lemma binaryOfInternal_internalOfBinary {name : String} (h : '/' ∉ name.toList) :
    binaryOfInternal (internalOfBinary name) = name := by
  rw [← String.toList_inj]
  simp only [binaryOfInternal, internalOfBinary, String.toList_ofList, map_map]
  refine (map_congr_left fun c hc => ?_).trans (map_id _)
  have hne : c ≠ '/' := fun heq => h (heq ▸ hc)
  by_cases hdot : c = '.' <;> simp [hdot, hne]

/-! ### Erased types -/

namespace Erased

/-- A type whose classes have checked names and whose arrays have a dimension. -/
def WellNamed : Erased → Prop
  | prim _ => True
  | cls c => checkTypeName c.name = .ok ()
  | array of dims => 0 < dims ∧ of.WellNamed

/-- The number of dimensions of a type, those of its elements included. -/
def depth : Erased → Nat
  | array of dims => dims + of.depth
  | _ => 0

/-- What is left of a type below all its dimensions. -/
def component : Erased → Erased
  | array of _ => of.component
  | e => e

/-- The same primitive, or classes of the same name. -/
inductive Alike : Erased → Erased → Prop where
  | prim (p : Prim) : Alike (.prim p) (.prim p)
  | cls {c d : ClassTy} (h : c.name = d.name) : Alike (.cls c) (.cls d)

variable {e f : Erased}

lemma toList_descriptor (e : Erased) :
    e.descriptor.toList = replicate e.depth '[' ++ e.component.descriptor.toList := by
  induction e with
  | prim p => rfl
  | cls c => rfl
  | array of dims ih => simp [descriptor, depth, component, ih, ← replicate_append_replicate]

/-- Below all dimensions are no more brackets. -/
lemma exists_descriptor_component (e : Erased) :
    ∃ c cs, e.component.descriptor.toList = c :: cs ∧ c ≠ '[' := by
  induction e with
  | prim p =>
    exact ⟨p.letter, [], by simp [component, descriptor, Prim.descriptor], by cases p <;> decide⟩
  | cls c => exact ⟨'L', _, by simp [component, descriptor]; rfl, by decide⟩
  | array of dims ih => exact ih

lemma component_cases (h : e.WellNamed) :
    (∃ p, e.component = prim p) ∨ ∃ c, e.component = cls c ∧ '/' ∉ c.name.toList := by
  induction e with
  | prim p => exact .inl ⟨p, rfl⟩
  | cls c => exact .inr ⟨c, rfl, slash_notMem h⟩
  | array of dims ih => exact ih h.2

/-- A descriptor without brackets tells primitives and classes apart. -/
lemma descriptor_component_inj (he : e.WellNamed) (hf : f.WellNamed)
    (h : e.component.descriptor = f.component.descriptor) : e.component.Alike f.component := by
  have hne (p : Prim) (c : ClassTy) : (prim p).descriptor ≠ (cls c).descriptor := fun heq => by
    have hlist := congrArg String.toList heq
    have hletter : p.letter ≠ 'L' := by cases p <;> decide
    simp [descriptor, Prim.descriptor, hletter] at hlist
  obtain ⟨p, hp⟩ | ⟨c, hc, hslash⟩ := component_cases he <;>
    obtain ⟨q, hq⟩ | ⟨d, hd, hslash'⟩ := component_cases hf
  · rw [hp, hq] at h ⊢
    have hpq : p = q := by revert h; cases p <;> cases q <;> decide
    exact hpq ▸ .prim p
  · exact absurd (hp ▸ hd ▸ h) (hne p d)
  · exact absurd (hc ▸ hq ▸ h.symm) (hne q c)
  · rw [hc, hd] at h ⊢
    have hinternal : internalOfBinary c.name = internalOfBinary d.name := by
      simpa [descriptor, ClassTy.internal] using h
    refine .cls ?_
    rw [← binaryOfInternal_internalOfBinary hslash, hinternal,
      binaryOfInternal_internalOfBinary hslash']

lemma Alike.descriptor_eq (h : e.Alike f) : e.descriptor = f.descriptor := by
  cases h with
  | prim p => rfl
  | cls h => simp [descriptor, ClassTy.internal, h]

/-- A descriptor tells the dimensions of a type and what is below them. -/
lemma descriptor_eq_iff (he : e.WellNamed) (hf : f.WellNamed) :
    e.descriptor = f.descriptor ↔ e.depth = f.depth ∧ e.component.Alike f.component := by
  rw [← String.toList_inj, toList_descriptor e, toList_descriptor f]
  constructor
  · intro h
    have hspan (g : Erased) :
        (replicate g.depth '[' ++ g.component.descriptor.toList).takeWhile (· = '[') =
          replicate g.depth '[' := by
      obtain ⟨c, cs, hc, hne⟩ := g.exists_descriptor_component
      rw [hc]
      exact (Descriptor.span_append (fun x hx => decide_eq_true (eq_of_mem_replicate hx))
        (decide_eq_false hne) cs).1
    have hdepth : e.depth = f.depth := by
      have htake := congrArg (takeWhile (· = '[')) h
      rw [hspan, hspan] at htake
      simpa using congrArg length htake
    rw [hdepth, append_cancel_left_eq, String.toList_inj] at h
    exact ⟨hdepth, descriptor_component_inj he hf h⟩
  · rintro ⟨hdepth, halike⟩
    rw [hdepth, halike.descriptor_eq]

/-- The same component below as many dimensions is the same type, or both are arrays. -/
lemma depth_eq_and_alike_iff (he : e.WellNamed) (hf : f.WellNamed) :
    e.depth = f.depth ∧ e.component.Alike f.component ↔ e.Alike f ∨ ∃ of m of' n, e = array of m ∧
    f = array of' n ∧ e.depth = f.depth ∧ of.component.Alike of'.component := by
  constructor
  · rintro ⟨hdepth, halike⟩
    cases e <;> cases f
    case array.array of m of' n => exact .inr ⟨of, m, of', n, rfl, rfl, hdepth, halike⟩
    case array.prim | array.cls => exact absurd hdepth (Nat.add_pos_left he.1 _).ne'
    case prim.array | cls.array => exact absurd hdepth (Nat.add_pos_left hf.1 _).ne
    all_goals exact .inl halike
  · rintro (halike | ⟨of, m, of', n, rfl, rfl, hdepth, halike⟩)
    · cases halike with
      | prim p => exact ⟨rfl, .prim p⟩
      | cls h => exact ⟨rfl, .cls h⟩
    · exact ⟨hdepth, halike⟩

end Erased

/-! ### Types as written -/

namespace Ty

/-- **Descriptors identify erasures.** Two types are one at run time exactly if they erase to the
same primitive, to classes of the same name, or to arrays with the same number of dimensions in all
over the same of these. To erase a type once more changes neither it nor its descriptor. -/
theorem sameErasure_iff :
    (∀ a b : Ty, a.erase.WellNamed → b.erase.WellNamed → (a.sameErasure b ↔ a.erase.Alike b.erase ∨
      ∃ of m of' n, a.erase = .array of m ∧ b.erase = .array of' n ∧ a.erase.depth = b.erase.depth ∧
        of.component.Alike of'.component)) ∧
    ∀ t : Ty, t.erase.toTy.erase = t.erase ∧ t.erase.toTy.descriptor = t.descriptor := by
  refine ⟨fun a b ha hb => ?_, fun t =>
    ⟨t.erase.erase_toTy, congrArg Erased.descriptor t.erase.erase_toTy⟩⟩
  rw [sameErasure, beq_iff_eq, descriptor, descriptor, Erased.descriptor_eq_iff ha hb,
    Erased.depth_eq_and_alike_iff ha hb]

/-- An array of two dimensions whose elements are arrays of a variable, and one of three dimensions
over its bound. -/
theorem sameErasure_iff_nested :
    checkTypeName "$.__" = .ok () ∧
    (array (array (var "T" [generic ⟨"$.__", .interface, false⟩ [string]]) 1) 2).sameErasure
      (array (annotated (cls ⟨"$.__", .ordinary, false⟩) []) 3) := by
  have hname : checkTypeName "$.__" = .ok () := by
    have hsegments : nameSegments "$.__" = ["$", "__"] := by decide
    rw [checkTypeName_eq_ok_iff, hsegments]
    simp [checkIdentifier, isNameStart, isNamePart, reservedWords]
  refine ⟨hname, (sameErasure_iff.1 _ _ ?_ ?_).2 (.inr ⟨_, _, _, _, rfl, rfl, rfl, .cls rfl⟩)⟩
  · exact ⟨by decide, by decide, hname⟩
  · exact ⟨by decide, hname⟩

end Ty

end Classwright
