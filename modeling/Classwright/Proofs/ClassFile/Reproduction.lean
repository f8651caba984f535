import Classwright.Proofs.ClassFile.RoundTrip

/-!
Writing what was read.

A reader `Takes` bytes by a relation if what it takes off the front of its input always stands in it
to the value it gives. The readers of class files take what is written of their values, with two
exceptions. A text may be spelled in more than one way (`Entry.Spelled`), and the declared count of
a pool may be zero, or may leave no room for the second index of its last entry
(`ReadsBehind.count`).

`ClassFile.Canonical` says of bytes that they make neither exception, and
`ClassFile.bytes_eq_ok_iff_canonical` that these are the bytes that are written again as they were
read.
-/

namespace Classwright

open List

/-- A reader takes bytes off the front of its input that are related to the value it gives. -/
def Takes {α : Type} (r : ReadM α) (P : α → Bytes → Prop) : Prop :=
  ∀ ⦃bs a rest⦄, r bs = .ok (a, rest) → ∃ front, bs = front ++ rest ∧ P a front

namespace Takes

variable {α β : Type} {r : ReadM α} {P : α → Bytes → Prop} {write : α → Bytes}

/-- A reader and what reads on from its value. -/
lemma of_bind {f : α → ReadM β} {bs rest : Bytes} {b : β} (hr : Takes r P)
    (h : (r >>= f) bs = .ok (b, rest)) :
    ∃ a front s, bs = front ++ s ∧ P a front ∧ f a s = .ok (b, rest) := by
  obtain ⟨a, s, ha, h⟩ := StateT.bind_eq_ok_iff.1 h
  obtain ⟨front, hbs, hP⟩ := hr ha
  exact ⟨a, front, s, hbs, hP, h⟩

/-! ### Numbers and bytes -/

lemma u16 (what : String) : Takes (Read.u16 what) fun v x => Bytes.ofU16 v = x := by
  intro bs v rest h
  unfold Read.u16 at h
  split at h
  · next a b bs =>
    obtain ⟨rfl, rfl⟩ := Prod.mk.inj (Except.ok.inj h)
    exact ⟨[a, b], rfl, Bytes.ofU16_u16 a b⟩
  · cases h

lemma u32 (what : String) : Takes (Read.u32 what) fun v x => Bytes.ofU32 v = x := by
  intro bs v rest h
  unfold Read.u32 at h
  split at h
  · next a b c d bs =>
    obtain ⟨rfl, rfl⟩ := Prod.mk.inj (Except.ok.inj h)
    exact ⟨[a, b, c, d], rfl, Bytes.ofU32_u32 a b c d⟩
  · cases h

lemma u64 (what : String) : Takes (Read.u64 what) fun v x => Bytes.ofU64 v = x := by
  intro bs v rest h
  unfold Read.u64 at h
  split at h
  · next a b c d e f g i bs =>
    obtain ⟨rfl, rfl⟩ := Prod.mk.inj (Except.ok.inj h)
    refine ⟨[a, b, c, d, e, f, g, i], rfl, ?_⟩
    dsimp only
    rw [Bytes.ofU64_words, Bytes.ofU32_u32, Bytes.ofU32_u32]
    rfl
  · cases h

lemma bytes (n : Nat) (what : String) :
    Takes (Read.bytes n what) fun v x => x = v ∧ v.length = n := by
  intro bs v rest h
  unfold Read.bytes Bytes.split? at h
  dsimp only at h
  split at h
  · next r hr =>
    split_ifs at hr with hlen
    obtain rfl := Option.some.inj hr
    obtain ⟨rfl, rfl⟩ := Prod.mk.inj (Except.ok.inj h)
    refine ⟨_, ?_, rfl, hlen⟩
    rw [splitAt_eq]
    exact (take_append_drop n bs).symm
  · cases h

/-- Things that are read one after another. -/
lemma times (h : Takes r P) (n : Nat) : Takes (Read.times n r) fun as x =>
    ∃ xs, x = xs.flatten ∧ as.length = n ∧ Forall₂ P as xs := by
  have honto (done : List α) : Takes (Read.timesOnto done r n) fun as x =>
      ∃ new xs, as = done.reverse ++ new ∧ x = xs.flatten ∧ new.length = n ∧ Forall₂ P new xs := by
    induction n generalizing done with
    | zero =>
      intro bs as rest hread
      obtain ⟨rfl, rfl⟩ := StateT.pure_eq_ok_iff.1 hread
      exact ⟨[], rfl, [], [], by simp, rfl, rfl, .nil⟩
    | succ n ih =>
      intro bs as rest hread
      obtain ⟨a, x, s, rfl, hx, hmore⟩ := h.of_bind hread
      obtain ⟨y, rfl, new, xs, rfl, rfl, hlen, hall⟩ := ih (a :: done) hmore
      exact ⟨x ++ xs.flatten, by simp, a :: new, x :: xs, by simp, rfl, by simp [hlen],
        .cons hx hall⟩
  intro bs as rest hread
  obtain ⟨x, hbs, new, xs, rfl, hx, hlen, hall⟩ := honto [] hread
  exact ⟨x, hbs, xs, hx, hlen, hall⟩

/-- Things that are written in one way each. -/
lemma times_flatMap (h : Takes r fun a x => write a = x) (n : Nat) :
    Takes (Read.times n r) fun as x => as.length = n ∧ as.flatMap write = x := by
  intro bs as rest hread
  obtain ⟨_, rfl, xs, rfl, hlen, hall⟩ := h.times n hread
  have hmap : Forall₂ (· = ·) (as.map write) xs := forall₂_map_left_iff.2 hall
  rw [forall₂_eq_eq_eq] at hmap
  exact ⟨_, rfl, hlen, by rw [flatMap_def, hmap]⟩

end Takes

/-! ### Attributes and members -/

lemma Encode.count_toNat (n : UInt16) (what : String) :
    Encode.count n.toNat what = .ok (Bytes.ofU16 n) := by
  have := n.toNat_lt
  rw [count, if_neg (by omega), UInt16.ofNat_toNat]

namespace Takes

lemma oneAttribute : Takes Read.oneAttribute fun a x => Encode.oneAttribute a = x := by
  intro bs a rest h
  obtain ⟨name, _, s, rfl, rfl, h₁⟩ := (u16 _).of_bind h
  obtain ⟨size, _, t, rfl, rfl, h₂⟩ := (u32 _).of_bind h₁
  obtain ⟨_, body, u, rfl, ⟨rfl, hlen⟩, h₃⟩ := (bytes _ _).of_bind h₂
  obtain ⟨rfl, rfl⟩ := StateT.pure_eq_ok_iff.1 h₃
  refine ⟨_, ?_, rfl⟩
  rw [Encode.oneAttribute, hlen, UInt32.ofNat_toNat]
  simp only [append_assoc]

lemma attributes : Takes Read.attributes fun as x => Encode.attributes as = .ok x := by
  intro bs as rest h
  obtain ⟨n, _, s, rfl, rfl, htimes⟩ := (u16 _).of_bind h
  obtain ⟨_, rfl, hlen, rfl⟩ := oneAttribute.times_flatMap _ htimes
  refine ⟨Bytes.ofU16 n ++ as.flatMap Encode.oneAttribute, by simp, ?_⟩
  show Encode.attributes as = _
  rw [Encode.attributes, hlen, Encode.count_toNat]
  rfl

lemma member : Takes Read.member fun m x => Encode.member m = .ok x := by
  intro bs m rest h
  obtain ⟨access, _, s, rfl, rfl, h₁⟩ := (u16 _).of_bind h
  obtain ⟨name, _, t, rfl, rfl, h₂⟩ := (u16 _).of_bind h₁
  obtain ⟨desc, _, u, rfl, rfl, h₃⟩ := (u16 _).of_bind h₂
  obtain ⟨as, x, v, rfl, hx, h₄⟩ := attributes.of_bind h₃
  obtain ⟨rfl, rfl⟩ := StateT.pure_eq_ok_iff.1 h₄
  refine ⟨Bytes.ofU16 access ++ Bytes.ofU16 name ++ Bytes.ofU16 desc ++ x, by simp, ?_⟩
  show Encode.member _ = _
  rw [Encode.member, hx]
  rfl

lemma members : Takes Read.members fun ms x => Encode.members ms = .ok x := by
  intro bs ms rest h
  obtain ⟨n, _, s, rfl, rfl, htimes⟩ := (u16 _).of_bind h
  obtain ⟨_, rfl, xs, rfl, hlen, hall⟩ := member.times _ htimes
  refine ⟨Bytes.ofU16 n ++ xs.flatten, by simp, ?_⟩
  show Encode.members ms = _
  rw [Encode.members, hlen, Encode.count_toNat, Except.mapM_eq_ok_of_forall₂ hall]
  rfl

end Takes

/-! ### Entries -/

/-- How an entry is spelled: a text by any bytes that are read as it, all else as it is written. -/
inductive Entry.Spelled : Entry → Bytes → Prop where
  | text {s : String} {n : UInt16} {body : Bytes} (hn : n.toNat = body.length)
      (hs : ModifiedUtf8.decode body = .ok s) : Spelled (.utf8 s) (1 :: (Bytes.ofU16 n ++ body))
  | plain {e : Entry} {x : Bytes} (he : ∀ s, e ≠ .utf8 s) (hx : Encode.entry e = .ok x) :
      Spelled e x

namespace Takes

variable {rest : Bytes} {k : UInt8} {e : Entry}

/-- The end of the input is read as the tag 0, which no entry has. -/
lemma tag {bs : Bytes} {t : UInt8} (h : Read.tag bs = .ok (t, rest)) (ht : t ≠ 0) :
    bs = t :: rest := by
  unfold Read.tag at h
  split at h
  · obtain ⟨rfl, rfl⟩ := Prod.mk.inj (Except.ok.inj h)
    rfl
  · obtain ⟨rfl, -⟩ := Prod.mk.inj (Except.ok.inj h)
    exact absurd rfl ht

/-- An entry that is written as its tag and one number. -/
lemma number {α : Type} {r : ReadM α} {write : α → Bytes} {wrap : α → Entry}
    (hr : Takes r fun v x => write v = x) (htext : ∀ v s, wrap v ≠ .utf8 s)
    (hwrite : ∀ v, Encode.entry (wrap v) = .ok (k :: write v)) {bs : Bytes}
    (h : (r >>= fun v => pure (wrap v)) bs = .ok (e, rest)) :
    ∃ x, k :: bs = x ++ rest ∧ e.Spelled x := by
  obtain ⟨v, _, s, rfl, rfl, h₁⟩ := hr.of_bind h
  obtain ⟨rfl, rfl⟩ := StateT.pure_eq_ok_iff.1 h₁
  exact ⟨k :: write v, rfl, .plain (htext v) (hwrite v)⟩

/-- An entry that is written as its tag and two references. -/
lemma references {what what' : String} {wrap : UInt16 → UInt16 → Entry}
    (htext : ∀ a b s, wrap a b ≠ .utf8 s)
    (hwrite : ∀ a b, Encode.entry (wrap a b) = .ok (k :: (Bytes.ofU16 a ++ Bytes.ofU16 b)))
    {bs : Bytes} (h : (Read.u16 what >>= fun a => Read.u16 what' >>= fun b => pure (wrap a b)) bs =
    .ok (e, rest)) : ∃ x, k :: bs = x ++ rest ∧ e.Spelled x := by
  obtain ⟨a, _, s, rfl, rfl, h₁⟩ := (u16 _).of_bind h
  obtain ⟨b, _, t, rfl, rfl, h₂⟩ := (u16 _).of_bind h₁
  obtain ⟨rfl, rfl⟩ := StateT.pure_eq_ok_iff.1 h₂
  exact ⟨k :: (Bytes.ofU16 a ++ Bytes.ofU16 b), by simp, .plain (htext a b) (hwrite a b)⟩

lemma entry (index : Nat) : Takes (Read.entry index) Entry.Spelled := by
  intro bs e rest h
  obtain ⟨t, s, ht, h⟩ := StateT.bind_eq_ok_iff.1 h
  obtain ⟨k, hk⟩ : ∃ k, t.toNat = k := ⟨_, rfl⟩
  have hfront (h0 : k ≠ 0) : bs = UInt8.ofNat k :: s := by
    rw [← hk, UInt8.ofNat_toNat]
    exact tag ht (by rintro rfl; exact h0 hk.symm)
  rw [hk] at h
  match k, hfront, h with
  | 0, _, h | 2, _, h | _ + 13, _, h => exact absurd h StateT.throw_ne_ok
  | 1, hfront, h =>
    obtain ⟨n, _, u, rfl, rfl, h₁⟩ := (u16 _).of_bind h
    obtain ⟨_, body, v, rfl, ⟨rfl, hlen⟩, h₂⟩ := (bytes _ _).of_bind h₁
    cases hdecode : ModifiedUtf8.decode body with
    | error cause =>
      rw [hdecode] at h₂
      exact absurd h₂ StateT.throw_ne_ok
    | ok text =>
      rw [hdecode] at h₂
      obtain ⟨rfl, rfl⟩ := StateT.pure_eq_ok_iff.1 h₂
      refine ⟨_, ?_, .text hlen.symm hdecode⟩
      rw [hfront (by decide), cons_append, append_assoc]
      rfl
  | 3, hfront, h | 4, hfront, h =>
    rw [hfront (by decide)]
    exact (u32 _).number (by simp) (fun _ => rfl) h
  | 5, hfront, h | 6, hfront, h =>
    rw [hfront (by decide)]
    exact (u64 _).number (by simp) (fun _ => rfl) h
  | 7, hfront, h | 8, hfront, h =>
    rw [hfront (by decide)]
    exact (u16 _).number (by simp) (fun _ => rfl) h
  | 9, hfront, h | 10, hfront, h | 11, hfront, h | 12, hfront, h =>
    rw [hfront (by decide)]
    exact references (by simp) (fun _ _ => rfl) h

end Takes

/-- The body of a text, if the bytes of an entry are those of a text. -/
def spelledText? : Bytes → Option Bytes
  | 1 :: _ :: _ :: body => some body
  | _ => none

variable {e : Entry} {x : Bytes} {es : List Entry}

lemma spelledText?_of_encode (he : ∀ s, e ≠ .utf8 s) (hx : Encode.entry e = .ok x) :
    spelledText? x = none := by
  cases e with
  | utf8 s => exact absurd rfl (he s)
  | _ =>
    obtain rfl := Except.pure_eq_ok_iff.1 hx
    rfl

namespace Entry.Spelled

variable {e : Entry} {es : List Entry} {x y : Bytes} {xs ys : List Bytes}

lemma of_encode (h : Encode.entry e = .ok x) : e.Spelled x := by
  cases e with
  | utf8 s =>
    obtain ⟨n, hn, rfl⟩ := Encode.utf8_eq_ok h
    exact .text hn (ModifiedUtf8.decode_encode s)
  | _ => exact .plain (by simp) h

/-- An entry is read from all its spellings. -/
lemma reads (h : e.Spelled x) (index : Nat) : Reads (Read.entry index) x e := by
  cases h with
  | text hn hs => exact .text hn hs index
  | plain he hx => exact Reads.entry hx index

/-- Where a spelling ends is told by what is in it. -/
lemma append_inj (hx : e.Spelled x) (hy : e.Spelled y) {bs bs' : Bytes} (h : x ++ bs = y ++ bs') :
    x = y ∧ bs = bs' := by
  have hread := hx.reads 0 bs
  rw [h, hy.reads 0 bs'] at hread
  obtain rfl := (Prod.mk.inj (Except.ok.inj hread)).2
  exact ⟨append_cancel_right h, rfl⟩

lemma flatten_inj (hx : Forall₂ Spelled es xs) (hy : Forall₂ Spelled es ys)
    (h : xs.flatten = ys.flatten) : xs = ys := by
  induction hx generalizing ys with
  | nil =>
    cases hy
    rfl
  | cons hx _ ih =>
    cases hy with
    | cons hy hys =>
      obtain ⟨rfl, hrest⟩ := hx.append_inj hy h
      rw [ih hys hrest]

/-- An entry is written as it is spelled unless it is a text that is spelled otherwise. -/
lemma encode_iff (h : e.Spelled x) :
    Encode.entry e = .ok x ↔ ∀ body ∈ spelledText? x, ∃ s, ModifiedUtf8.encode s = body := by
  cases h with
  | @text s n body hn hs =>
    have hbody : spelledText? (1 :: (Bytes.ofU16 n ++ body)) = some body := rfl
    simp only [hbody, Option.mem_some_iff, forall_eq']
    constructor
    · intro h
      obtain ⟨m, -, hx⟩ := Encode.utf8_eq_ok h
      exact ⟨s, (append_inj_right (cons.inj hx).2 rfl).symm⟩
    · rintro ⟨t, rfl⟩
      rw [ModifiedUtf8.decode_encode] at hs
      obtain rfl := Except.ok.inj hs
      have hlt := n.toNat_lt
      have hshort : ¬ 65535 < (ModifiedUtf8.encode t).length := by omega
      simp only [Encode.entry, if_neg hshort]
      rw [← hn, UInt16.ofNat_toNat]
      rfl
  | plain he hx => simp [spelledText?_of_encode he hx, hx]

lemma forall₂_encode_iff (h : Forall₂ Spelled es xs) :
    Forall₂ (fun e x => Encode.entry e = .ok x) es xs ↔
    ∀ body ∈ xs.flatMap fun x => (spelledText? x).toList, ∃ s, ModifiedUtf8.encode s = body := by
  induction h with
  | nil => simp
  | cons hx _ ih =>
    rw [forall₂_cons, hx.encode_iff, ih, flatMap_cons]
    simp only [forall_mem_append, Option.mem_toList, Option.mem_def]

end Entry.Spelled

/-! ### Texts of a pool -/

/-- The bodies of the texts among the next `n` indices of a pool. The tag of an entry tells the size
of what follows it; that of a text is followed by the size of the text. -/
def textBodies : Nat → Bytes → List Bytes
  | 0, _ => []
  | _ + 1, [] => []
  | n + 1, tag :: bs =>
    match tag.toNat with
    | 1 =>
      match bs with
      | a :: b :: bs =>
        let size := (Bytes.u16 a b).toNat
        bs.take size :: textBodies n (bs.drop size)
      | _ => []
    | 5 | 6 =>
      match n with
      | 0 => []
      | n + 1 => textBodies n (bs.drop 8)
    | 7 | 8 => textBodies n (bs.drop 2)
    | 3 | 4 | 9 | 10 | 11 | 12 => textBodies n (bs.drop 4)
    | _ => []

/-- Entries are walked one by one, whatever follows them. -/
lemma textBodies_append (h : e.Spelled x) (n : Nat) (rest : Bytes) :
    textBodies (n + e.slots) (x ++ rest) = (spelledText? x).toList ++ textBodies n rest := by
  cases h with
  | @text s k body hk hs =>
    have hstep (a b : UInt8) (bs : Bytes) : textBodies (n + 1) (1 :: a :: b :: bs) =
        bs.take (Bytes.u16 a b).toNat :: textBodies n (bs.drop (Bytes.u16 a b).toNat) := rfl
    show textBodies (n + 1) (1 :: _ :: _ :: (body ++ rest)) = body :: textBodies n rest
    rw [hstep, Bytes.u16_ofU16, hk, take_left, drop_left]
  | plain he hx =>
    rw [spelledText?_of_encode he hx]
    cases e with
    | utf8 s => exact absurd rfl (he s)
    | int bits | float bits | long bits | double bits | cls r | str r | field a b | method a b
    | interfaceMethod a b | nameAndType a b =>
      obtain rfl := Except.pure_eq_ok_iff.1 hx
      rfl

lemma textBodies_flatten {xs : List Bytes} (h : Forall₂ Entry.Spelled es xs)
    (rest : Bytes) : textBodies (es.map Entry.slots).sum (xs.flatten ++ rest) =
      xs.flatMap fun x => (spelledText? x).toList := by
  induction h with
  | nil => rfl
  | cons hx _ ih =>
    rw [map_cons, sum_cons, Nat.add_comm, flatten_cons, append_assoc,
      textBodies_append hx, ih, flatMap_cons]

/-! ### Pools -/

namespace Pool

variable {p : Pool} {es : List Entry} {e : Entry}

lemma succ_lt_length_places (he : e.isWide = true) {i : Nat}
    (hi : (es.flatMap Entry.places)[i]? = some (some e)) :
    i + 1 < (es.flatMap Entry.places).length := by
  induction es generalizing i with
  | nil => simp at hi
  | cons d es ih =>
    rw [flatMap_cons, getElem?_append] at hi
    rw [flatMap_cons, length_append]
    split_ifs at hi with hlt
    · -- The first entry is the one at the index, and has two places.
      unfold Entry.places at hi ⊢
      grind
    · have := ih hi
      omega

/-- An entry of two indices has room for both. -/
lemma Lists.succ_lt_count (h : p.Lists es) {i : Nat} (hi : p.entries[i]? = some (some e))
    (he : e.isWide = true) : i + 1 < p.count := by
  rw [← Array.getElem?_toList, h] at hi
  rw [Pool.count, ← Array.length_toList, h, length_cons]
  rcases i with _ | i
  · simp at hi
  · have := succ_lt_length_places he (by simpa using hi)
    omega

lemma count_place (p : Pool) (e : Entry) : (Read.place p e).count = p.count + e.slots := by
  unfold Read.place Pool.count Entry.slots
  cases e.isWide <;> simp

lemma entries_place (p : Pool) (e : Entry) :
    (Read.place p e).entries[p.count]? = some (some e) := by
  unfold Read.place Pool.count
  cases e.isWide
  · simp
  · show ((p.entries.push (some e)).push none)[p.entries.size]? = some (some e)
    rw [Array.getElem?_push_lt (by simp)]
    simp

end Pool

/-- What was read of a pool that is declared to have `count` indices: entries behind those of `p`,
as they are spelled. Only index 0 and the second index of the last entry can go beyond the count. -/
structure ReadsBehind (count : Nat) (p q : Pool) (es : List Entry) (xs : List Bytes) : Prop where
  spelled : Forall₂ Entry.Spelled es xs
  lists : ∀ {done}, p.Lists done → q.Lists (done ++ es)
  overflowed : q.overflowed = p.overflowed
  count : q.count = count ∨
    q.count = count + 1 ∧ (count = 0 ∨ ∃ e, e.isWide = true ∧ q.entries[count - 1]? = some (some e))

lemma Takes.entries {fuel count : Nat} {p : Pool} (hle : p.count ≤ count)
    (hfuel : count ≤ p.count + fuel) : Takes (Read.entries fuel count p) fun q x =>
      ∃ es xs, x = xs.flatten ∧ ReadsBehind count p q es xs := by
  intro bs q rest h
  induction fuel generalizing p bs with
  | zero =>
    obtain ⟨rfl, rfl⟩ := StateT.pure_eq_ok_iff.1 h
    exact ⟨[], rfl, [], [], rfl, .nil, fun h => by simpa using h, rfl, .inl (by omega)⟩
  | succ fuel ih =>
    unfold Read.entries at h
    split_ifs at h with hmore
    · obtain ⟨e, x, s, rfl, hx, hrest⟩ := (Takes.entry _).of_bind h
      have hcount := Pool.count_place p e
      have hslots : 1 ≤ e.slots ∧ e.slots ≤ 2 := by unfold Entry.slots; split <;> omega
      rcases Nat.lt_or_ge count (p.count + e.slots) with hover | hnext
      · -- The entry takes the last index and the one beyond it, and ends the pool.
        have hend : Read.entries fuel count (Read.place p e) s = .ok (Read.place p e, s) := by
          cases fuel with
          | zero => rfl
          | succ fuel => rw [Read.entries, if_neg (by omega)]; rfl
        rw [hend] at hrest
        obtain ⟨rfl, rfl⟩ := Prod.mk.inj (Except.ok.inj hrest)
        have hwide : e.isWide = true := by
          by_contra hnarrow
          have : e.slots = 1 := by rw [Entry.slots, if_neg hnarrow]
          omega
        have hlast : (Read.place p e).entries[count - 1]? = some (some e) := by
          rw [show count - 1 = p.count by omega]
          exact Pool.entries_place p e
        exact ⟨x, rfl, [e], [x], by simp, .cons hx .nil, fun h => h.place e, rfl,
          .inr ⟨by omega, .inr ⟨e, hwide, hlast⟩⟩⟩
      · obtain ⟨_, rfl, es, xs, rfl, hr⟩ := ih (p := Read.place p e) (by omega) (by omega) hrest
        refine ⟨x ++ xs.flatten, by simp, e :: es, x :: xs, rfl, .cons hx hr.spelled, fun h => ?_,
          hr.overflowed, hr.count⟩
        simpa using hr.lists (h.place e)
    · obtain ⟨rfl, rfl⟩ := StateT.pure_eq_ok_iff.1 h
      exact ⟨[], rfl, [], [], rfl, .nil, fun h => by simpa using h, rfl, .inl (by omega)⟩

lemma Takes.pool : Takes Read.pool fun q x =>
    ∃ (count : UInt16) (es : List Entry) (xs : List Bytes), x = Bytes.ofU16 count ++ xs.flatten ∧
    ReadsBehind count.toNat .empty q es xs := by
  intro bs q rest h
  obtain ⟨count, _, s, rfl, rfl, hentries⟩ := (u16 _).of_bind h
  have hone : Pool.empty.count = 1 := rfl
  rcases Nat.eq_zero_or_pos count.toNat with hzero | hpos
  · rw [hzero] at hentries
    obtain ⟨rfl, rfl⟩ := StateT.pure_eq_ok_iff.1 hentries
    exact ⟨Bytes.ofU16 count, rfl, count, [], [], by simp, .nil, fun h => by simpa using h, rfl,
      .inr ⟨by omega, .inl hzero⟩⟩
  · obtain ⟨_, rfl, es, xs, rfl, hr⟩ := entries (by omega) (by omega) hentries
    exact ⟨Bytes.ofU16 count ++ xs.flatten, by simp, count, es, xs, rfl, hr⟩

lemma Encode.pool_eq_ok_iff {p : Pool} {y : Bytes} (hes : p.Lists es) (ho : p.overflowed = false) :
    Encode.pool p = .ok y ↔ ∃ ys, Forall₂ (fun e y => Encode.entry e = .ok y) es ys ∧
    y = Bytes.ofU16 (UInt16.ofNat p.count) ++ ys.flatten := by
  unfold Encode.pool
  rw [ho, hes.filterMap]
  simp only [Bool.false_eq_true, if_false]
  constructor
  · intro h
    obtain ⟨ys, hys, h⟩ := Except.bind_eq_ok_iff.1 h
    exact ⟨ys, Except.forall₂_of_mapM_eq_ok hys, (Except.pure_eq_ok_iff.1 h).symm⟩
  · rintro ⟨ys, hys, rfl⟩
    rw [Except.mapM_eq_ok_of_forall₂ hys]
    rfl

namespace ReadsBehind

variable {count : UInt16} {q : Pool} {es : List Entry} {xs : List Bytes}

/-- The declared count is that of the pool unless it is zero or cuts its last entry. -/
lemma count_iff (h : ReadsBehind count.toNat .empty q es xs) : q.count = count.toNat ↔
    count ≠ 0 ∧ ∀ e, q.entry (count - 1) = .ok e → e.isWide = false := by
  have hlists : q.Lists es := h.lists (show Pool.empty.Lists [] from rfl)
  have hlast (h0 : count ≠ 0) : (count - 1).toNat = count.toNat - 1 := by
    have hpos : 0 < count.toNat := Nat.pos_of_ne_zero fun h => h0 (UInt16.toNat_inj.1 h)
    exact UInt16.toNat_sub_of_le _ _ (UInt16.le_iff_toNat_le.2 hpos)
  constructor
  · intro hcount
    have h0 : count ≠ 0 := by
      rintro rfl
      have := hlists.count
      simp at hcount
      omega
    refine ⟨h0, fun e he => ?_⟩
    by_contra hwide
    rw [Pool.entry_eq_ok_iff, hlast h0] at he
    have := hlists.succ_lt_count he (by simpa using hwide)
    omega
  · rintro ⟨h0, hnarrow⟩
    rcases h.count with hcount | ⟨-, hzero | ⟨e, hwide, he⟩⟩
    · exact hcount
    · exact absurd (UInt16.toNat_inj.1 hzero) h0
    · have := hnarrow e (Pool.entry_eq_ok_iff.2 (by rwa [hlast h0]))
      simp [hwide] at this

/-- A pool is written as it was read if its count is the declared one and its texts are encoded. -/
lemma encode_iff (h : ReadsBehind count.toNat .empty q es xs) (rest : Bytes) :
    Encode.pool q = .ok (Bytes.ofU16 count ++ xs.flatten) ↔ q.count = count.toNat ∧
    ∀ body ∈ textBodies (count.toNat - 1) (xs.flatten ++ rest),
    ∃ s, ModifiedUtf8.encode s = body := by
  have hlists : q.Lists es := h.lists (show Pool.empty.Lists [] from rfl)
  have htexts (hcount : q.count = count.toNat) : textBodies (count.toNat - 1) (xs.flatten ++ rest) =
      xs.flatMap fun x => (spelledText? x).toList := by
    have hsum : count.toNat - 1 = (es.map Entry.slots).sum := by
      rw [← hcount, hlists.count]
      omega
    rw [hsum, textBodies_flatten h.spelled]
  rw [Encode.pool_eq_ok_iff hlists h.overflowed]
  constructor
  · rintro ⟨ys, hys, heq⟩
    obtain ⟨hhead, htail⟩ := append_inj heq rfl
    -- A count of one more than the declared one is not the same in sixteen bits either.
    have hcount : q.count = count.toNat := by
      have hword := congrArg UInt16.toNat (Bytes.ofU16_inj hhead)
      have hlt := count.toNat_lt
      rw [UInt16.toNat_ofNat'] at hword
      rcases h.count with hc | ⟨hc, -⟩ <;> omega
    refine ⟨hcount, ?_⟩
    obtain rfl := Entry.Spelled.flatten_inj h.spelled (hys.imp fun _ _ => .of_encode) htail
    rw [htexts hcount, ← Entry.Spelled.forall₂_encode_iff h.spelled]
    exact hys
  · rintro ⟨hcount, hbodies⟩
    rw [htexts hcount, ← Entry.Spelled.forall₂_encode_iff h.spelled] at hbodies
    exact ⟨xs, hbodies, by rw [hcount, UInt16.ofNat_toNat]⟩

end ReadsBehind

/-! ### Class files -/

/-- A class file is written around its pool as it was read. -/
lemma Takes.classFile : Takes Read.classFile fun cf x =>
    ∃ pool tail, x = Bytes.ofU32 ClassFile.magic ++ Bytes.ofU16 cf.minor ++ Bytes.ofU16 cf.major ++
    pool ++ tail ∧ (∃ (count : UInt16) (es : List Entry) (xs : List Bytes),
    pool = Bytes.ofU16 count ++ xs.flatten ∧ ReadsBehind count.toNat .empty cf.pool es xs) ∧
    cf.bytes = Encode.pool cf.pool >>= fun y =>
      pure (Bytes.ofU32 ClassFile.magic ++ Bytes.ofU16 cf.minor ++ Bytes.ofU16 cf.major ++ y ++
        tail) := by
  intro bs cf rest h
  obtain ⟨magic, _, s₁, rfl, rfl, h₁⟩ := (u32 _).of_bind h
  split_ifs at h₁ with hm
  · obtain ⟨_, _, hthrow, -⟩ := StateT.bind_eq_ok_iff.1 h₁
    exact absurd hthrow StateT.throw_ne_ok
  obtain rfl : magic = ClassFile.magic := by simpa using hm
  obtain ⟨minor, _, s₂, rfl, rfl, h₂⟩ := (u16 _).of_bind h₁
  obtain ⟨major, _, s₃, rfl, rfl, h₃⟩ := (u16 _).of_bind h₂
  obtain ⟨p, _, s₄, rfl, hread, h₄⟩ := pool.of_bind h₃
  obtain ⟨access, _, s₅, rfl, rfl, h₅⟩ := (u16 _).of_bind h₄
  obtain ⟨this, _, s₆, rfl, rfl, h₆⟩ := (u16 _).of_bind h₅
  obtain ⟨super, _, s₇, rfl, rfl, h₇⟩ := (u16 _).of_bind h₆
  obtain ⟨n, _, s₈, rfl, rfl, h₈⟩ := (u16 _).of_bind h₇
  obtain ⟨interfaces, _, s₉, rfl, ⟨hlen, rfl⟩, h₉⟩ := ((u16 _).times_flatMap _).of_bind h₈
  obtain ⟨fields, x, s₁₀, rfl, hx, h₁₀⟩ := members.of_bind h₉
  obtain ⟨methods, y, s₁₁, rfl, hy, h₁₁⟩ := members.of_bind h₁₀
  obtain ⟨as, z, s₁₂, rfl, hz, h₁₂⟩ := attributes.of_bind h₁₁
  obtain ⟨rfl, rfl⟩ := StateT.pure_eq_ok_iff.1 h₁₂
  refine ⟨_, ?_, _, Bytes.ofU16 access ++ Bytes.ofU16 this ++ Bytes.ofU16 super ++ Bytes.ofU16 n ++
    interfaces.flatMap Bytes.ofU16 ++ x ++ y ++ z, rfl, hread, ?_⟩
  · simp only [append_assoc]
  · simp only [ClassFile.bytes, hlen, Encode.count_toNat, hx, hy, hz]
    cases Encode.pool p with
    | error e => rfl
    | ok bs => simp [bind, Except.bind]

namespace ClassFile

variable {data : Bytes} {cf : ClassFile}

lemma parse_eq_ok_iff : parse data = .ok cf ↔ Read.classFile data = .ok (cf, []) := by
  unfold parse StateT.run
  rw [Except.bind_eq_ok_iff]
  constructor
  · rintro ⟨⟨cf', rest⟩, hread, h⟩
    cases rest with
    | nil =>
      obtain rfl := Except.pure_eq_ok_iff.1 h
      exact hread
    | cons b rest => exact absurd h Except.throw_ne_ok
  · intro hread
    exact ⟨_, hread, rfl⟩

/-- The number of pool indices that the bytes of a class file declare. -/
def declaredCount (data : Bytes) : UInt16 :=
  match data.drop 8 with
  | a :: b :: _ => Bytes.u16 a b
  | _ => 0

/-- The bodies of the texts in the pool of a class file. -/
def utf8Bodies (data : Bytes) : List Bytes :=
  textBodies ((declaredCount data).toNat - 1) (data.drop 10)

/-- Bytes that spell the class file that is read from them as it is written: index 0 is counted, the
last index does not hold an entry that takes two, and each text is spelled as texts are encoded. -/
structure Canonical (cf : ClassFile) (data : Bytes) : Prop where
  count : 1 ≤ declaredCount data
  last : ∀ e, cf.pool.entry (declaredCount data - 1) = .ok e → e.isWide = false
  texts : ∀ body ∈ utf8Bodies data, ∃ s, ModifiedUtf8.encode s = body

/-- A class file that was read is written again, and as the bytes it was read from, exactly if these
are canonical. -/
theorem bytes_eq_ok_iff_canonical (h : parse data = .ok cf) :
    cf.bytes = .ok data ↔ cf.Canonical data := by
  obtain ⟨_, hdata, pool, tail, rfl, ⟨count, es, xs, rfl, hread⟩, hbytes⟩ :=
    Takes.classFile (parse_eq_ok_iff.1 h)
  rw [List.append_nil] at hdata
  have hcount : declaredCount data = count := by
    subst hdata
    exact Bytes.u16_ofU16 count
  have hbodies : data.drop 10 = xs.flatten ++ tail := by
    subst hdata
    rfl
  have hpool : cf.bytes = .ok data ↔
      Encode.pool cf.pool = .ok (Bytes.ofU16 count ++ xs.flatten) := by
    rw [hbytes, hdata, Except.bind_eq_ok_iff]
    simp only [Except.pure_eq_ok_iff, List.append_left_inj, List.append_right_inj, exists_eq_right]
  have hpos : declaredCount data ≠ 0 ↔ 1 ≤ declaredCount data := by
    rw [UInt16.le_iff_toNat_le, ← not_iff_not, not_not, ← UInt16.toNat_inj]
    exact Nat.lt_one_iff.symm.trans not_le.symm
  rw [hpool, hread.encode_iff tail, hread.count_iff, ← hbodies, ← hcount, hpos]
  exact ⟨fun ⟨⟨hc, hl⟩, ht⟩ => ⟨hc, hl, ht⟩, fun hcan => ⟨⟨hcan.count, hcan.last⟩, hcan.texts⟩⟩

end ClassFile

/-- A class file with a text twice in its pool, a `long` in the middle of it, and indices that
nothing refers to. The text has a zero. -/
def repetitiveClass : Bytes :=
  [0xCA, 0xFE, 0xBA, 0xBE, 0, 0, 0, 52, 0, 7, 1, 0, 3, 0x41, 0xC0, 0x80, 5, 0, 0, 0, 0, 0, 0, 0, 9,
   1, 0, 3, 0x41, 0xC0, 0x80, 7, 0, 1, 7, 0, 4, 0, 0x21, 0, 5, 0, 0, 0, 1, 0, 6, 0, 0, 0, 1, 0, 1,
   0, 1, 0, 4, 0, 1, 0, 1, 0, 0, 0, 2, 7, 7, 0, 0]

theorem bytes_repetitiveClass : ∃ cf, ClassFile.parse repetitiveClass = .ok cf ∧
    cf.Canonical repetitiveClass ∧ cf.bytes = .ok repetitiveClass := by
  obtain ⟨cf, hparse, hlast⟩ : ∃ cf, ClassFile.parse repetitiveClass = .ok cf ∧
      cf.pool.entry (ClassFile.declaredCount repetitiveClass - 1) = .ok (.cls 4) := ⟨_, rfl, rfl⟩
  have hbodies : ∀ body ∈ ClassFile.utf8Bodies repetitiveClass,
      body = ModifiedUtf8.encode "A\x00" := by decide
  have hcan : cf.Canonical repetitiveClass := by
    refine ⟨by decide, fun e he => ?_, fun body hbody => ⟨_, (hbodies body hbody).symm⟩⟩
    obtain rfl := Except.ok.inj (hlast.symm.trans he)
    rfl
  exact ⟨cf, hparse, hcan, (ClassFile.bytes_eq_ok_iff_canonical hparse).2 hcan⟩

end Classwright
