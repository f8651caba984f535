import Classwright.Proofs.ClassFile.Resolution

/-!
Pools filled by requests.

A request asks for a constant with all its parts, any of which may find the pool full. A part that
was lost has no index, and leaves no room for what refers to it (`Sound.refer`): so no entry refers
to a lost one, and a request answers with an index that resolves to it or with none,
`request_cases`. Main statement: `wellFormed_fill`, for all the requests of an empty pool.
-/

namespace Classwright

/-- The indices an entry refers to, each with the tag of what is there. -/
def Entry.refs : Entry → List (UInt16 × Nat)
  | utf8 _ | int _ | float _ | long _ | double _ => []
  | cls n | str n => [(n, 1)]
  | field c n | method c n | interfaceMethod c n => [(c, 7), (n, 12)]
  | nameAndType n d => [(n, 1), (d, 1)]

namespace Pool

/-- What may be asked of a pool. -/
inductive Request where
  | utf8 (s : String)
  | cls (name : String)
  | str (s : String)
  | int (v : Int32)
  | float (bits : UInt32)
  | long (v : Int64)
  | double (bits : UInt64)
  | nameAndType (name desc : String)
  | field (owner name desc : String)
  | method (owner name desc : String) (isInterface : Bool)

def request : Request → PoolM UInt16
  | .utf8 s => utf8 s
  | .cls name => cls name
  | .str s => str s
  | .int v => int v
  | .float bits => float bits
  | .long v => long v
  | .double bits => double bits
  | .nameAndType name desc => nameAndType name desc
  | .field owner name desc => field owner name desc
  | .method owner name desc isInterface => method owner name desc isInterface

/-- A pool after some requests. -/
def fill (rs : List Request) (p : Pool) : Pool := rs.foldl (fun p r => (request r p).2) p

def HasTag (p : Pool) (i : UInt16) (tag : Nat) : Prop := ∃ e, p.entry i = .ok e ∧ e.tag = tag

/-- An index resolves to what was asked for. -/
def Resolves (p : Pool) (i : UInt16) : Request → Prop
  | .utf8 s => p.utf8At i = .ok s
  | .cls name => p.classAt i = .ok name
  | .str s => ∃ n, p.entry i = .ok (.str n) ∧ p.utf8At n = .ok s
  | .int v => p.entry i = .ok (.int v.toUInt32)
  | .float bits => p.entry i = .ok (.float bits)
  | .long v => p.entry i = .ok (.long v.toUInt64)
  | .double bits => p.entry i = .ok (.double bits)
  | .nameAndType name desc => p.nameAndTypeAt i = .ok (name, desc)
  | .field owner name desc => p.HasTag i 9 ∧ p.memberAt i = .ok ⟨owner, name, desc, false⟩
  | .method owner name desc isInterface =>
    p.HasTag i (if isInterface then 11 else 10) ∧
      p.memberAt i = .ok ⟨owner, name, desc, isInterface⟩

/-- What a class file asks of its pool. -/
structure WellFormed (p : Pool) : Prop where
  count : p.count ≤ limit
  distinct : ∀ {e i j}, p.entry i = .ok e → p.entry j = .ok e → i = j
  wide : ∀ {e i}, p.entry i = .ok e → e.isWide = true → p.entries[i.toNat + 1]? = some none
  refs : ∀ {e i}, p.entry i = .ok e → ∀ r ∈ e.refs, r.1 < i ∧ p.HasTag r.1 r.2

/-- Besides, the index of the pool knows all its entries. -/
structure Sound (p : Pool) : Prop extends p.Coherent where
  complete : ∀ {e i}, p.entry i = .ok e → p.index[e]? = some i
  wide : ∀ {e i}, p.entry i = .ok e → e.isWide = true → p.entries[i.toNat + 1]? = some none
  refs : ∀ {e i}, p.entry i = .ok e → ∀ r ∈ e.refs, r.1 < i ∧ p.HasTag r.1 r.2

/-- A full pool has no index to give. -/
structure Lost (p : Pool) (i : UInt16) : Prop where
  zero : i = 0
  overflowed : p.overflowed = true
  full : p.count = limit

variable {p q : Pool} {e : Entry} {i j : UInt16} {Q R : Pool → UInt16 → Prop} {s : String}

lemma Sound.wellFormed (hp : p.Sound) : p.WellFormed :=
  ⟨hp.count, fun hi hj => Option.some.inj ((hp.complete hi).symm.trans (hp.complete hj)), hp.wide,
    hp.refs⟩

lemma sound_empty : empty.Sound := by
  have hnone {e : Entry} {i : UInt16} : empty.entry i ≠ .ok e := by
    rw [Ne, entry_eq_ok_iff]
    intro h
    obtain ⟨hi, h⟩ := Array.getElem?_eq_some_iff.1 h
    simp [empty] at hi h
  exact ⟨coherent_empty, fun h => absurd h hnone, fun h => absurd h hnone, fun h => absurd h hnone⟩

lemma HasTag.later {tag : Nat} (h : p.HasTag i tag) (he : p.Extends q) : q.HasTag i tag := by
  obtain ⟨e, hi, ht⟩ := h
  exact ⟨e, he.entry hi, ht⟩

/-! ### One entry -/

/-- An entry whose parts are there keeps a pool sound. -/
lemma Sound.add (hp : p.Sound) (hrefs : ∀ r ∈ e.refs, p.HasTag r.1 r.2) : (add e p).2.Sound := by
  obtain ⟨hc, hx, -⟩ := add_spec hp.toCoherent e
  rcases add_cases p e with ⟨i, -, hadd⟩ | ⟨-, -, hadd⟩ | ⟨hfits, hnone, hadd⟩ <;>
    rw [hadd] at hc hx ⊢
  · exact hp
  · exact ⟨hc, hp.complete, hp.wide, hp.refs⟩
  · have hcount := toNat_ofNat_count hfits
    refine ⟨hc, fun {e' j} h => ?_, fun {e' j} h hw => ?_, fun {e' j} h r hr => ?_⟩ <;>
      rw [entry_eq_ok_iff, getElem?_append_places_eq_some_iff] at h
    · rw [Std.HashMap.getElem?_insert]
      rcases h with h | ⟨hj, rfl⟩
      · have hold := hp.complete (entry_eq_ok_iff.2 h)
        rw [if_neg fun he => by simp [eq_of_beq he, hold] at hnone]
        exact hold
      · simp [← UInt16.toNat_inj, hcount, hj]
    · show (p.entries ++ e.places.toArray)[j.toNat + 1]? = _
      rw [getElem?_append_places]
      rcases h with h | ⟨hj, rfl⟩
      · have hold := hp.wide (entry_eq_ok_iff.2 h) hw
        rwa [if_pos (show _ < p.count from (Array.getElem?_eq_some_iff.1 hold).1)]
      · simp [hj, Entry.places, hw]
    · rcases h with h | ⟨hj, rfl⟩
      · obtain ⟨hlt, ht⟩ := hp.refs (entry_eq_ok_iff.2 h) r hr
        exact ⟨hlt, ht.later hx⟩
      · refine ⟨?_, (hrefs r hr).later hx⟩
        obtain ⟨e, hi, -⟩ := hrefs r hr
        rw [UInt16.lt_iff_toNat_lt, hj]
        exact (Array.getElem?_eq_some_iff.1 (entry_eq_ok_iff.1 hi)).1

/-- What is asked of a sound pool is there afterwards, or was lost. -/
structure Answers (p q : Pool) (i : UInt16) (Q : Pool → UInt16 → Prop) : Prop where
  sound : q.Sound
  later : p.Extends q
  grows : p.count ≤ q.count
  answer : Q q i ∨ q.Lost i

lemma count_le_add (e : Entry) (p : Pool) : p.count ≤ (add e p).2.count := by
  rcases add_cases p e with ⟨i, -, hadd⟩ | ⟨-, -, hadd⟩ | ⟨-, -, hadd⟩ <;> simp [hadd, count]

/-- An entry may refer to what was lost: then it is lost itself. -/
lemma Sound.refer (hp : p.Sound) (he : e.isWide = false)
    (hrefs : ∀ r ∈ e.refs, p.HasTag r.1 r.2 ∨ p.Lost r.1) :
    Answers p (Pool.add e p).2 (Pool.add e p).1 fun q i => q.entry i = .ok e ∧
    ∀ r ∈ e.refs, ¬ p.Lost r.1 := by
  have hslots : e.slots = 1 := by simp [Entry.slots, he]
  have hfull (h : limit < p.count + e.slots) : p.count = limit := by have := hp.count; omega
  obtain ⟨-, hx, hentry⟩ := add_spec hp.toCoherent e
  by_cases hlost : ∃ r ∈ e.refs, p.Lost r.1
  · obtain ⟨r, hr, hl⟩ := hlost
    rcases add_cases p e with ⟨i, hi, -⟩ | ⟨h, -, hadd⟩ | ⟨h, -, -⟩
    · obtain ⟨-, e', hzero, -⟩ := hp.refs (hp.index hi) r hr
      rw [hl.zero] at hzero
      exact absurd hzero hp.entry_zero_ne
    · rw [hadd] at hx ⊢
      exact ⟨⟨⟨hp.lists, hp.index, hp.count⟩, hp.complete, hp.wide, hp.refs⟩, hx, le_rfl,
        .inr ⟨rfl, rfl, hfull h⟩⟩
    · have := hl.full
      omega
  · have hkept : ∀ r ∈ e.refs, ¬ p.Lost r.1 := fun r hr hl => hlost ⟨r, hr, hl⟩
    refine ⟨hp.add fun r hr => (hrefs r hr).resolve_right (hkept r hr), hx, count_le_add e p, ?_⟩
    rcases add_cases p e with ⟨i, hi, hadd⟩ | ⟨h, -, hadd⟩ | ⟨h, -, hadd⟩
    · rw [hadd]
      exact .inl ⟨hp.index hi, hkept⟩
    · rw [hadd]
      exact .inr ⟨rfl, rfl, hfull h⟩
    · rw [hadd]
      refine .inl ⟨entry_eq_ok_iff.2 (getElem?_append_places_eq_some_iff.2 (.inr ⟨?_, rfl⟩)), hkept⟩
      exact toNat_ofNat_count h

/-! ### One request -/

namespace Answers

/-- What there is for an index lasts, also that there is nothing. -/
lemma lasts (h : Answers p q i Q) (hR : Lasts R) (hj : R p j ∨ p.Lost j) : R q j ∨ q.Lost j := by
  refine hj.imp (hR h.later) fun hl => ⟨hl.zero, ?_, ?_⟩
  · by_contra ho
    simpa [hl.overflowed] using h.later.overflowed (Bool.eq_false_iff.2 ho)
  · have := h.sound.count
    have := h.grows
    have := hl.full
    omega

lemma imp (h : Answers p q i Q) (hR : Q q i → R q i) : Answers p q i R :=
  ⟨h.sound, h.later, h.grows, h.answer.imp_left hR⟩

lemma after {p₀ : Pool} (h : Answers p q i Q) (h₀ : Answers p₀ p j R) : Answers p₀ q i Q :=
  ⟨h.sound, h₀.later.trans h.later, h₀.grows.trans h.grows, h.answer⟩

end Answers

/-- Requests that a sound pool answers. -/
def Gives (m : PoolM UInt16) (Q : Pool → UInt16 → Prop) : Prop :=
  ∀ ⦃p⦄, p.Sound → Answers p (m p).2 (m p).1 Q

/-- What holds of an index lasts, and tells the tag of what is there. -/
structure Marks (Q : Pool → UInt16 → Prop) (tag : Nat) : Prop where
  lasts : Lasts Q
  hasTag : ∀ {p i}, Q p i → p.HasTag i tag

namespace Gives

variable {m m' : PoolM UInt16} {tag tag' : Nat}

lemma imp (h : Gives m Q) (hR : ∀ {p i}, Q p i → R p i) : Gives m R := fun _ hp => (h hp).imp hR

/-- An entry that refers to one other. -/
lemma refer {f : UInt16 → Entry} (h : Gives m Q) (hQ : Marks Q tag)
    (hf : ∀ n, (f n).refs = [(n, tag)]) (hw : ∀ n, (f n).isWide = false) :
    Gives (m >>= fun n => Pool.add (f n)) fun q i => ∃ n, q.entry i = .ok (f n) ∧ Q q n := by
  intro p hp
  have hn := h hp
  have he := hn.sound.refer (hw (m p).1) (by simpa [hf] using hn.answer.imp_left hQ.hasTag)
  refine (he.imp fun ⟨hi, hl⟩ => ⟨_, hi, hQ.lasts he.later (hn.answer.resolve_right ?_)⟩).after hn
  simpa [hf] using hl

/-- An entry that refers to two others. -/
lemma refer₂ {f : UInt16 → UInt16 → Entry} (h : Gives m Q) (hQ : Marks Q tag) (h' : Gives m' R)
    (hR : Marks R tag') (hf : ∀ n k, (f n k).refs = [(n, tag), (k, tag')])
    (hw : ∀ n k, (f n k).isWide = false) :
    Gives (m >>= fun n => m' >>= fun k => Pool.add (f n k)) fun q i =>
    ∃ n k, q.entry i = .ok (f n k) ∧ Q q n ∧ R q k := by
  intro p hp
  have hn := h hp
  have hk := h' hn.sound
  have hn' := hk.lasts hQ.lasts hn.answer
  have he := hk.sound.refer (hw (m p).1 (m' (m p).2).1)
    (by simpa [hf] using ⟨hn'.imp_left hQ.hasTag, hk.answer.imp_left hR.hasTag⟩)
  refine ((he.imp fun ⟨hi, hl⟩ => ?_).after hk).after hn
  obtain ⟨hln, hlk⟩ : ¬ (m' (m p).2).2.Lost (m p).1 ∧ ¬ (m' (m p).2).2.Lost (m' (m p).2).1 := by
    simpa [hf] using hl
  exact ⟨_, _, hi, hQ.lasts he.later (hn'.resolve_right hln),
    hR.lasts he.later (hk.answer.resolve_right hlk)⟩

end Gives

lemma marks_utf8At : Marks (fun q i => q.utf8At i = .ok s) 1 :=
  ⟨lasts_utf8At, fun h => ⟨_, utf8At_eq_ok_iff.1 h, rfl⟩⟩

lemma marks_classAt : Marks (fun q i => q.classAt i = .ok s) 7 := by
  refine ⟨lasts_classAt, fun h => ?_⟩
  obtain ⟨n, he, -⟩ := classAt_eq_ok_iff.1 h
  exact ⟨_, he, rfl⟩

lemma marks_nameAndTypeAt {name desc : String} :
    Marks (fun q i => q.nameAndTypeAt i = .ok (name, desc)) 12 := by
  refine ⟨lasts_nameAndTypeAt, fun h => ?_⟩
  obtain ⟨n, d, he, -⟩ := nameAndTypeAt_eq_ok_iff.1 h
  exact ⟨_, he, rfl⟩

lemma gives_utf8 (s : String) : Gives (utf8 s) fun q i => q.utf8At i = .ok s :=
  fun _ hp => (hp.refer (e := .utf8 s) rfl (by simp [Entry.refs])).imp fun h =>
    utf8At_eq_ok_iff.2 h.1

lemma gives_cls (name : String) : Gives (cls name) fun q i => q.classAt i = .ok name :=
  ((gives_utf8 name).refer marks_utf8At (fun _ => rfl) fun _ => rfl).imp classAt_eq_ok_iff.2

lemma gives_nameAndType (name desc : String) :
    Gives (nameAndType name desc) fun q i => q.nameAndTypeAt i = .ok (name, desc) :=
  ((gives_utf8 name).refer₂ marks_utf8At (gives_utf8 desc) marks_utf8At (fun _ _ => rfl) fun _ _ =>
    rfl).imp
    nameAndTypeAt_eq_ok_iff.2

/-- A request keeps a pool sound and all that is in it, and answers with an index that resolves to
it, unless the pool overflows. -/
lemma request_cases (hp : p.Sound) (r : Request) :
    (request r p).2.Sound ∧ p.Extends (request r p).2 ∧
    ((request r p).2.Resolves (request r p).1 r ∨ (request r p).1 = 0 ∧
    (request r p).2.overflowed = true) := by
  have hgives {m : PoolM UInt16} (h : Gives m fun q i => q.Resolves i r) :
      (m p).2.Sound ∧ p.Extends (m p).2 ∧
      ((m p).2.Resolves (m p).1 r ∨ (m p).1 = 0 ∧ (m p).2.overflowed = true) :=
    ⟨(h hp).sound, (h hp).later, (h hp).answer.imp_right fun hl => ⟨hl.zero, hl.overflowed⟩⟩
  cases r with
  | utf8 s => exact hgives (gives_utf8 s)
  | cls name => exact hgives (gives_cls name)
  | str s => exact hgives ((gives_utf8 s).refer marks_utf8At (fun _ => rfl) fun _ => rfl)
  | int v | float v | long v | double v => exact ⟨hp.add nofun, (add_spec hp.toCoherent _).2⟩
  | nameAndType name desc => exact hgives (gives_nameAndType name desc)
  | field owner name desc =>
    refine hgives (((gives_cls owner).refer₂ marks_classAt (gives_nameAndType name desc)
      marks_nameAndTypeAt (fun _ _ => rfl) fun _ _ => rfl).imp ?_)
    rintro q i ⟨c, n, he, hc, hn⟩
    exact ⟨⟨_, he, rfl⟩, memberAt_of_field he hc hn⟩
  | method owner name desc isInterface =>
    have hrefs (c n : UInt16) :
        (if isInterface then Entry.interfaceMethod c n else .method c n).refs =
        [(c, 7), (n, 12)] := by cases isInterface <;> rfl
    refine hgives (((gives_cls owner).refer₂ marks_classAt (gives_nameAndType name desc)
      marks_nameAndTypeAt hrefs fun _ _ => by cases isInterface <;> rfl).imp ?_)
    rintro q i ⟨c, n, he, hc, hn⟩
    exact ⟨⟨_, he, by cases isInterface <;> rfl⟩, memberAt_of_method he hc hn⟩

/-! ### All requests -/

lemma Extends.resolves (h : p.Extends q) {r : Request} (hr : p.Resolves i r) : q.Resolves i r := by
  cases r with
  | utf8 s => exact h.utf8At hr
  | cls name => exact h.classAt hr
  | str s =>
    obtain ⟨n, he, hs⟩ := hr
    exact ⟨n, h.entry he, h.utf8At hs⟩
  | int v | float v | long v | double v => exact h.entry hr
  | nameAndType name desc => exact h.nameAndTypeAt hr
  | field owner name desc | method owner name desc isInterface =>
    exact ⟨hr.1.later h, h.memberAt hr.2⟩

lemma Sound.not_resolves_zero (hp : p.Sound) (r : Request) : ¬ p.Resolves 0 r := by
  have hzero (e : Entry) : p.entry 0 ≠ .ok e := hp.entry_zero_ne
  cases r <;>
    simp [Resolves, utf8At_eq_ok_iff, classAt_eq_ok_iff, nameAndTypeAt_eq_ok_iff, HasTag, hzero]

lemma sound_fill (rs : List Request) (hp : p.Sound) :
    (fill rs p).Sound ∧ p.Extends (fill rs p) := by
  induction rs generalizing p with
  | nil => exact ⟨hp, .refl p⟩
  | cons r rs ih =>
    obtain ⟨hs, hx, -⟩ := request_cases hp r
    obtain ⟨hs', hx'⟩ := ih hs
    exact ⟨hs', hx.trans hx'⟩

/-- **A pool that is filled by requests, of whatever number, is well formed.** A request answers
with 0 only when the pool has overflowed; any other index resolves to what was asked for, then and
for ever after. -/
theorem wellFormed_fill :
    (∀ rs, (fill rs empty).WellFormed) ∧
    ∀ (before : List Request) (r : Request) (rest : List Request),
      (request r (fill before empty)).1 = 0 ∧ (fill (before ++ [r]) empty).overflowed = true ∨
      (request r (fill before empty)).1 ≠ 0 ∧
        (fill (before ++ r :: rest) empty).Resolves (request r (fill before empty)).1 r := by
  refine ⟨fun rs => (sound_fill rs sound_empty).1.wellFormed, fun before r rest => ?_⟩
  obtain ⟨hs, -, hr⟩ := request_cases (sound_fill before sound_empty).1 r
  have hsnoc : fill (before ++ [r]) empty = (request r (fill before empty)).2 := by simp [fill]
  have hall : fill (before ++ r :: rest) empty = fill rest (request r (fill before empty)).2 := by
    simp [fill]
  rw [hsnoc, hall]
  by_cases hzero : (request r (fill before empty)).1 = 0
  · refine .inl ⟨hzero, (hr.resolve_left fun h => ?_).2⟩
    rw [hzero] at h
    exact hs.not_resolves_zero r h
  · exact .inr ⟨hzero, (sound_fill rest hs).2.resolves (hr.resolve_right fun h => hzero h.1)⟩

end Pool

end Classwright
