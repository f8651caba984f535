import Classwright.ClassFile.Pool
import Classwright.Proofs.Outcome

/-!
Constant pools.

The entries of a coherent pool stand in the order they were added, and are found where its index
says (`Pool.Coherent`). Adding to it keeps what is there, and the index that is given back has the
entry, unless the pool has overflowed.
-/

namespace Classwright

/-- The indices of an entry, the second of which has none. -/
def Entry.places (e : Entry) : List (Option Entry) := if e.isWide then [some e, none] else [some e]

namespace Pool

/-- The entries of a pool, in the order they were added. -/
def Lists (p : Pool) (es : List Entry) : Prop := p.entries.toList = none :: es.flatMap Entry.places

/-- The index of a pool tells where its entries are. -/
structure Coherent (p : Pool) : Prop where
  lists : ∃ es, p.Lists es
  index : ∀ {e i}, p.index[e]? = some i → p.entry i = .ok e
  count : p.count ≤ limit

/-- A later pool has all that was in it before. -/
structure Extends (p q : Pool) : Prop where
  entry : ∀ {i e}, p.entry i = .ok e → q.entry i = .ok e
  overflowed : q.overflowed = false → p.overflowed = false

variable {p q r : Pool} {e : Entry} {i : UInt16}

lemma Extends.refl (p : Pool) : p.Extends p := ⟨id, id⟩

lemma Extends.trans (h : p.Extends q) (h' : q.Extends r) : p.Extends r :=
  ⟨fun he => h'.entry (h.entry he), fun ho => h.overflowed (h'.overflowed ho)⟩

lemma coherent_empty : empty.Coherent :=
  ⟨⟨[], rfl⟩, fun h => by simp [empty] at h, by simp [count, empty, limit]⟩

lemma Coherent.first (hp : p.Coherent) : p.entries[0]? = some none := by
  obtain ⟨es, hes⟩ := hp.lists
  rw [← Array.getElem?_toList, hes]
  rfl

lemma entry_eq_ok_iff : p.entry i = .ok e ↔ p.entries[i.toNat]? = some (some e) := by
  unfold entry
  split
  · next h => simp [h]
  · next h =>
    simp only [reduceCtorEq, false_iff]
    exact fun h' => h _ h'

lemma Coherent.entry_zero_ne (hp : p.Coherent) : p.entry 0 ≠ .ok e := by
  rw [Ne, entry_eq_ok_iff]
  simp [show (0 : UInt16).toNat = 0 from rfl, hp.first]

/-- An entry is found, or does not fit, or is put at the end. -/
lemma add_cases (p : Pool) (e : Entry) : (∃ i, p.index[e]? = some i ∧ add e p = (i, p)) ∨
    (limit < p.count + e.slots ∧ p.index[e]? = none ∧
    add e p = (0, { p with overflowed := true })) ∨
    (p.count + e.slots ≤ limit ∧ p.index[e]? = none ∧ add e p = (UInt16.ofNat p.count,
      { p with
        entries := p.entries ++ e.places.toArray
        index := p.index.insert e (UInt16.ofNat p.count) })) := by
  unfold add
  cases hi : p.index[e]? with
  | some i => exact .inl ⟨i, rfl, rfl⟩
  | none =>
    rcases Nat.lt_or_ge limit (p.count + e.slots) with h | h
    · exact .inr (.inl ⟨h, rfl, if_pos h⟩)
    · refine .inr (.inr ⟨h, rfl, ?_⟩)
      simp only [if_neg (Nat.not_lt.2 h), Entry.places]
      cases e.isWide <;> rfl

lemma toNat_ofNat_count (h : p.count + e.slots ≤ limit) :
    (UInt16.ofNat p.count).toNat = p.count := by
  rw [UInt16.toNat_ofNat']
  have : 1 ≤ e.slots := by unfold Entry.slots; split <;> omega
  unfold limit at h
  omega

lemma getElem?_append_places (e : Entry) (n : Nat) : (p.entries ++ e.places.toArray)[n]? =
    if n < p.count then p.entries[n]? else e.places[n - p.count]? := by
  rw [← List.getElem?_toArray]
  exact Array.getElem?_append

/-- What is at the end of a pool after an entry was put there. -/
lemma getElem?_append_places_eq_some_iff {e' : Entry} {n : Nat} :
    (p.entries ++ e.places.toArray)[n]? = some (some e') ↔ p.entries[n]? = some (some e') ∨
    n = p.count ∧ e' = e := by
  rw [getElem?_append_places]
  split
  · next h => exact ⟨.inl, fun h' => h'.resolve_right fun h' => by omega⟩
  · next h =>
    rw [Array.getElem?_eq_none (show p.entries.size ≤ n from Nat.not_lt.1 h)]
    obtain ⟨k, rfl⟩ := Nat.exists_eq_add_of_le (Nat.not_lt.1 h)
    unfold Entry.places
    rcases k with _ | _ | k <;> split <;> simp [eq_comm]

/-- What is added is found where it was put. -/
lemma add_spec (hp : p.Coherent) (e : Entry) :
    (add e p).2.Coherent ∧ p.Extends (add e p).2 ∧
    ((add e p).2.entry (add e p).1 = .ok e ∨ (add e p).1 = 0 ∧ (add e p).2.overflowed = true) := by
  rcases add_cases p e with ⟨i, hi, hadd⟩ | ⟨-, -, hadd⟩ | ⟨hfits, -, hadd⟩ <;> rw [hadd]
  · exact ⟨hp, .refl p, .inl (hp.index hi)⟩
  · exact ⟨⟨hp.lists, hp.index, hp.count⟩, ⟨id, nofun⟩, .inr ⟨rfl, rfl⟩⟩
  · have hcount := toNat_ofNat_count hfits
    refine ⟨⟨?_, fun {e' j} h => ?_, ?_⟩, ⟨fun h => ?_, id⟩, .inl ?_⟩
    · obtain ⟨es, hes⟩ := hp.lists
      exact ⟨es ++ [e], by simp [Lists, show p.entries.toList = _ from hes]⟩
    · rw [Std.HashMap.getElem?_insert] at h
      rw [entry_eq_ok_iff, getElem?_append_places_eq_some_iff]
      split at h
      · next he =>
        obtain rfl := Option.some.inj h
        exact .inr ⟨hcount, (eq_of_beq he).symm⟩
      · exact .inl (entry_eq_ok_iff.1 (hp.index h))
    · have : e.places.length = e.slots := by unfold Entry.places Entry.slots; split <;> rfl
      simpa [count, this] using hfits
    · exact entry_eq_ok_iff.2 (getElem?_append_places_eq_some_iff.2 (.inl (entry_eq_ok_iff.1 h)))
    · exact entry_eq_ok_iff.2 (getElem?_append_places_eq_some_iff.2 (.inr ⟨hcount, rfl⟩))

/-- Computations that keep a pool coherent and what is in it. -/
def Adds {α : Type} (m : PoolM α) : Prop :=
  ∀ ⦃p : Pool⦄, p.Coherent → (m p).2.Coherent ∧ p.Extends (m p).2

lemma adds_add (e : Entry) : Adds (add e) := fun _ hp => ⟨(add_spec hp e).1, (add_spec hp e).2.1⟩

lemma Adds.bind {α β : Type} {m : PoolM α} {f : α → PoolM β} (hm : Adds m) (hf : ∀ a, Adds (f a)) :
    Adds (m >>= f) := by
  intro p hp
  obtain ⟨hc, he⟩ := hm hp
  obtain ⟨hc', he'⟩ := hf (m p).1 hc
  exact ⟨hc', he.trans he'⟩

lemma adds_cls (name : String) : Adds (cls name) := .bind (adds_add _) fun _ => adds_add _

lemma adds_str (s : String) : Adds (str s) := .bind (adds_add _) fun _ => adds_add _

lemma adds_nameAndType (name desc : String) : Adds (nameAndType name desc) :=
  .bind (adds_add _) fun _ => .bind (adds_add _) fun _ => adds_add _

lemma adds_field (owner name desc : String) : Adds (field owner name desc) :=
  .bind (adds_cls _) fun _ => .bind (adds_nameAndType _ _) fun _ => adds_add _

lemma adds_method (owner name desc : String) (isInterface : Bool) :
    Adds (method owner name desc isInterface) :=
  .bind (adds_cls _) fun _ => .bind (adds_nameAndType _ _) fun _ => adds_add _

end Pool

end Classwright
