import Classwright.Bytecode.Program
import Classwright.ClassFile.Reader
import Classwright.Proofs.Bytes
import Classwright.Proofs.ClassFile.Pool
import Classwright.Proofs.ClassFile.Text

/-!
Reading what was written.

A reader `Reads` bytes as a value if it takes exactly these off the front of any input and gives the
value. Readers in sequence read what was written in sequence, so that each part of a class file is
read by the reader that stands for it.
-/

namespace Classwright

open Classwright.Except (bind_eq_ok_iff pure_eq_ok_iff)
open List

/-- A reader takes the bytes off the front of its input, whatever follows, and gives the value. -/
def Reads {α : Type} (r : ReadM α) (bs : Bytes) (a : α) : Prop :=
  ∀ rest, r (bs ++ rest) = .ok (a, rest)

namespace Reads

variable {α β : Type} {r : ReadM α} {f : α → ReadM β} {bs bs' : Bytes} {a : α} {b : β}

lemma pure (a : α) : Reads (pure a) [] a := fun _ => rfl

lemma bind (h : Reads r bs a) (h' : Reads (f a) bs' b) : Reads (r >>= f) (bs ++ bs') b :=
  fun rest => by
  rw [append_assoc]
  exact StateT.bind_eq_ok_iff.2 ⟨a, bs' ++ rest, h _, h' rest⟩

/-- The last reader of a sequence. -/
lemma bind_pure {g : α → β} (h : Reads r bs a) :
    Reads (r >>= fun x => Pure.pure (g x)) bs (g a) := by
  have := h.bind (f := fun x => Pure.pure (g x)) (pure (g a))
  rwa [append_nil] at this

/-! ### Numbers and bytes -/

lemma u16 (v : UInt16) (what : String) : Reads (Read.u16 what) (Bytes.ofU16 v) v := fun rest => by
  simp [Read.u16, Bytes.ofU16, Bytes.u16_ofU16]

lemma u32 (v : UInt32) (what : String) : Reads (Read.u32 what) (Bytes.ofU32 v) v := fun rest => by
  simp [Read.u32, Bytes.ofU32, Bytes.u32_ofU32]

lemma u64 (v : UInt64) (what : String) : Reads (Read.u64 what) (Bytes.ofU64 v) v := fun rest => by
  simp only [Read.u64, Bytes.ofU64, Bytes.ofU32, cons_append, nil_append, Bytes.u32_ofU32,
    Bytes.or_words]

lemma bytes (bs : Bytes) (what : String) : Reads (Read.bytes bs.length what) bs bs := fun rest => by
  have hsplit : Bytes.split? bs.length (bs ++ rest) = some (bs, rest) := by simp [Bytes.split?]
  simp [Read.bytes, hsplit]

/-- Things that were written one after another. -/
lemma times {as : List α} {bss : List Bytes} (h : Forall₂ (fun a bs => Reads r bs a) as bss) :
    Reads (Read.times as.length r) bss.flatten as := by
  have honto (done : List α) :
      Reads (Read.timesOnto done r as.length) bss.flatten (done.reverse ++ as) := by
    induction h generalizing done with
    | nil => simpa [Read.timesOnto] using pure done.reverse
    | @cons a bs as bss ha _ ih =>
      have hrest := ih (a :: done)
      rw [reverse_cons, append_assoc, singleton_append] at hrest
      exact ha.bind hrest
  exact honto []

/-- Things that are written in one way each. -/
lemma times_flatMap {as : List α} {write : α → Bytes} (h : ∀ a ∈ as, Reads r (write a) a) :
    Reads (Read.times as.length r) (as.flatMap write) as := by
  rw [flatMap_def]
  exact times (forall₂_map_right_iff.2 (forall₂_same.2 h))

end Reads

/-! ### Counted things -/

variable {bs : Bytes}

lemma Encode.count_eq_ok {n : Nat} {what : String} (h : Encode.count n what = .ok bs) :
    bs = Bytes.ofU16 (UInt16.ofNat n) ∧ (UInt16.ofNat n).toNat = n := by
  unfold count at h
  split_ifs at h with hn
  refine ⟨(Except.ok.inj h).symm, ?_⟩
  rw [UInt16.toNat_ofNat']
  omega

/-! ### Attributes and members -/

/-- An attribute whose length can be written. -/
def Attribute.Short (a : Attribute) : Prop := a.data.length < 2 ^ 32

lemma Reads.oneAttribute {a : Attribute} (ha : a.Short) :
    Reads Read.oneAttribute (Encode.oneAttribute a) a := by
  have hsize : (UInt32.ofNat a.data.length).toNat = a.data.length := by
    rw [UInt32.toNat_ofNat']
    exact Nat.mod_eq_of_lt ha
  rw [Encode.oneAttribute, append_assoc]
  refine (Reads.u16 _ _).bind ((Reads.u32 _ _).bind ?_)
  rw [hsize]
  exact (Reads.bytes a.data _).bind_pure

lemma Reads.attributes {as : List Attribute} (has : ∀ a ∈ as, a.Short)
    (h : Encode.attributes as = .ok bs) : Reads Read.attributes bs as := by
  obtain ⟨n, hn, h⟩ := bind_eq_ok_iff.1 h
  obtain rfl := pure_eq_ok_iff.1 h
  obtain ⟨rfl, hcount⟩ := Encode.count_eq_ok hn
  refine (Reads.u16 _ _).bind ?_
  rw [hcount]
  exact .times_flatMap fun a ha => .oneAttribute (has a ha)

/-- A member whose attributes can be written. -/
def Member.Short (m : Member) : Prop := ∀ a ∈ m.attributes, a.Short

lemma Reads.member {m : Member} (hm : m.Short) (h : Encode.member m = .ok bs) :
    Reads Read.member bs m := by
  obtain ⟨as, has, h⟩ := bind_eq_ok_iff.1 h
  obtain rfl := pure_eq_ok_iff.1 h
  rw [append_assoc, append_assoc]
  exact (Reads.u16 _ _).bind ((Reads.u16 _ _).bind ((Reads.u16 _ _).bind
    (Reads.attributes hm has).bind_pure))

lemma Reads.members {ms : List Member} (hms : ∀ m ∈ ms, m.Short)
    (h : Encode.members ms = .ok bs) : Reads Read.members bs ms := by
  obtain ⟨n, hn, h⟩ := bind_eq_ok_iff.1 h
  obtain ⟨bss, hbss, h⟩ := bind_eq_ok_iff.1 h
  obtain rfl := pure_eq_ok_iff.1 h
  obtain ⟨rfl, hcount⟩ := Encode.count_eq_ok hn
  refine (Reads.u16 _ _).bind ?_
  rw [hcount]
  have hall := (forall₂_and_left _ _).2 ⟨hms, Except.forall₂_of_mapM_eq_ok hbss⟩
  exact .times (hall.imp fun m bs h => .member h.1 h.2)

/-! ### Pools -/

lemma Reads.tag (t : UInt8) : Reads Read.tag [t] t := fun _ => rfl

lemma Encode.utf8_eq_ok {s : String} (h : Encode.entry (.utf8 s) = .ok bs) :
    ∃ n : UInt16, n.toNat = (ModifiedUtf8.encode s).length ∧
    bs = 1 :: (Bytes.ofU16 n ++ ModifiedUtf8.encode s) := by
  unfold entry at h
  dsimp only at h
  split_ifs at h with hlong
  · cases h
  · refine ⟨_, ?_, (pure_eq_ok_iff.1 h).symm⟩
    rw [UInt16.toNat_ofNat']
    omega

/-- A text is read from any bytes that are decoded as it. -/
lemma Reads.text {s : String} {n : UInt16} {body : Bytes} (hn : n.toNat = body.length)
    (hs : ModifiedUtf8.decode body = .ok s) (index : Nat) :
    Reads (Read.entry index) (1 :: (Bytes.ofU16 n ++ body)) (.utf8 s) := by
  refine (Reads.tag 1).bind ((Reads.u16 n _).bind ?_)
  rw [hn]
  nth_rewrite 2 [← append_nil body]
  refine (Reads.bytes _ _).bind ?_
  rw [hs]
  exact .pure _

/-- An entry of a pool, at any index. -/
lemma Reads.entry {e : Entry} (h : Encode.entry e = .ok bs) (index : Nat) :
    Reads (Read.entry index) bs e := by
  cases e with
  | utf8 s =>
    obtain ⟨n, hn, rfl⟩ := Encode.utf8_eq_ok h
    exact .text hn (ModifiedUtf8.decode_encode s) index
  | int bits | float bits =>
    obtain rfl := pure_eq_ok_iff.1 h
    exact (Reads.tag _).bind (Reads.u32 bits _).bind_pure
  | long bits | double bits =>
    obtain rfl := pure_eq_ok_iff.1 h
    exact (Reads.tag _).bind (Reads.u64 bits _).bind_pure
  | cls r | str r =>
    obtain rfl := pure_eq_ok_iff.1 h
    exact (Reads.tag _).bind (Reads.u16 r _).bind_pure
  | field a b | method a b | interfaceMethod a b | nameAndType a b =>
    obtain rfl := pure_eq_ok_iff.1 h
    exact (Reads.tag _).bind ((Reads.u16 a _).bind (Reads.u16 b _).bind_pure)

namespace Pool

variable {p : Pool} {es : List Entry}

lemma length_places (e : Entry) : e.places.length = e.slots := by
  unfold Entry.places Entry.slots
  split <;> rfl

lemma Lists.count (h : p.Lists es) : p.count = 1 + (es.map Entry.slots).sum := by
  rw [Pool.count, ← Array.length_toList, h, length_cons, length_flatMap, Nat.add_comm]
  simp only [length_places]

/-- The entries of a pool without the indices that have none. -/
lemma Lists.filterMap (h : p.Lists es) : p.entries.toList.filterMap id = es := by
  have hplaces (es : List Entry) : (es.flatMap Entry.places).filterMap id = es := by
    induction es with
    | nil => rfl
    | cons e es ih =>
      rw [flatMap_cons, filterMap_append, ih]
      unfold Entry.places
      split <;> rfl
  rw [h, filterMap_cons]
  exact hplaces es

lemma Lists.place (h : p.Lists es) (e : Entry) : (Read.place p e).Lists (es ++ [e]) := by
  unfold Lists at h ⊢
  unfold Read.place
  cases hw : e.isWide <;> simp [hw, h, Entry.places]

end Pool

/-- The rest of a pool: entries that were written one after another are placed behind those that
were read. -/
lemma Reads.entries {done es : List Entry} {bss : List Bytes} {p : Pool} {fuel count : Nat}
    (hp : p.Lists done) (hcount : count = 1 + ((done ++ es).map Entry.slots).sum)
    (hfuel : es.length ≤ fuel) (h : Forall₂ (fun e bs => Encode.entry e = .ok bs) es bss) :
    ∃ q : Pool, q.Lists (done ++ es) ∧ Reads (Read.entries fuel count p) bss.flatten q := by
  induction h generalizing done p fuel with
  | nil =>
    have hdone : ¬ p.count < count := by
      rw [hp.count, hcount, append_nil]
      omega
    refine ⟨p, by simpa using hp, ?_⟩
    cases fuel with
    | zero => exact .pure p
    | succ fuel =>
      rw [Read.entries, if_neg hdone]
      exact .pure p
  | @cons e bs es bss he _ ih =>
    have hslots : 1 ≤ e.slots := by unfold Entry.slots; split <;> omega
    have hmore : p.count < count := by
      rw [hp.count, hcount]
      simp
      omega
    obtain ⟨fuel, rfl⟩ : ∃ n, fuel = n + 1 := ⟨fuel - 1, by simp at hfuel; omega⟩
    obtain ⟨q, hq, hreads⟩ := ih (hp.place e) (by simpa using hcount) (by simpa using hfuel)
    refine ⟨q, by simpa using hq, ?_⟩
    rw [Read.entries, if_pos hmore]
    exact (Reads.entry he _).bind hreads

/-- A pool is read back with its entries at their indices. -/
lemma Reads.pool {p : Pool} (hp : p.Coherent) (h : Encode.pool p = .ok bs) :
    ∃ q : Pool, q.entries = p.entries ∧ Reads Read.pool bs q := by
  obtain ⟨es, hes⟩ := hp.lists
  unfold Encode.pool at h
  split_ifs at h
  · cases h
  obtain ⟨bss, hbss, h⟩ := bind_eq_ok_iff.1 h
  obtain rfl := pure_eq_ok_iff.1 h
  rw [hes.filterMap] at hbss
  have hcount : (UInt16.ofNat p.count).toNat = p.count := by
    have := hp.count
    unfold Pool.limit at this
    rw [UInt16.toNat_ofNat']
    omega
  have hfuel : es.length ≤ p.count := by
    have hsum := card_nsmul_le_sum (es.map Entry.slots) 1 (by simp [Entry.slots]; grind)
    rw [hes.count]
    simp at hsum
    omega
  have hempty : Pool.empty.Lists [] := rfl
  obtain ⟨q, hq, hreads⟩ := Reads.entries hempty hes.count hfuel (Except.forall₂_of_mapM_eq_ok hbss)
  refine ⟨q, Array.toList_inj.1 (hq.trans hes.symm), (Reads.u16 _ _).bind ?_⟩
  rw [hcount]
  exact hreads

/-! ### Class files -/

namespace ClassFile

/-- A class file whose attributes can be written. -/
structure Short (cf : ClassFile) : Prop where
  fields : ∀ m ∈ cf.fields, m.Short
  methods : ∀ m ∈ cf.methods, m.Short
  attributes : ∀ a ∈ cf.attributes, a.Short

/-- A class file is read back. -/
lemma parse_of_bytes {cf : ClassFile} {data : Bytes} (hp : cf.pool.Coherent) (hs : cf.Short)
    (h : cf.bytes = .ok data) :
    ∃ p : Pool, p.entries = cf.pool.entries ∧ parse data = .ok { cf with pool := p } := by
  obtain ⟨interfaces, hinterfaces, h⟩ := bind_eq_ok_iff.1 h
  obtain ⟨fields, hfields, h⟩ := bind_eq_ok_iff.1 h
  obtain ⟨methods, hmethods, h⟩ := bind_eq_ok_iff.1 h
  obtain ⟨attributes, hattributes, h⟩ := bind_eq_ok_iff.1 h
  obtain ⟨pool, hpool, h⟩ := bind_eq_ok_iff.1 h
  obtain rfl := pure_eq_ok_iff.1 h
  obtain ⟨q, hq, hreadPool⟩ := Reads.pool hp hpool
  obtain ⟨rfl, hn⟩ := Encode.count_eq_ok hinterfaces
  have hreads : Reads Read.classFile [Bytes.ofU32 magic, Bytes.ofU16 cf.minor, Bytes.ofU16 cf.major,
      pool, Bytes.ofU16 cf.access, Bytes.ofU16 cf.this, Bytes.ofU16 cf.super,
      Bytes.ofU16 (UInt16.ofNat cf.interfaces.length), cf.interfaces.flatMap Bytes.ofU16, fields,
      methods, attributes].flatten { cf with pool := q } := by
    simp only [flatten_cons, flatten_nil, append_nil]
    refine (Reads.u32 magic _).bind ?_
    rw [if_neg (by simp)]
    refine (Reads.u16 _ _).bind ((Reads.u16 _ _).bind (hreadPool.bind ((Reads.u16 _ _).bind
      ((Reads.u16 _ _).bind ((Reads.u16 _ _).bind ((Reads.u16 _ _).bind ?_))))))
    rw [hn]
    exact (Reads.times_flatMap fun v _ => Reads.u16 v _).bind
      ((Reads.members hs.fields hfields).bind
      ((Reads.members hs.methods hmethods).bind
      (Reads.attributes hs.attributes hattributes).bind_pure))
  refine ⟨q, hq, ?_⟩
  have hall := hreads []
  rw [append_nil] at hall
  unfold parse
  rw [StateT.run, hall]
  rfl

end ClassFile

/-! ### Code attributes -/

lemma Reads.handler (e : ExceptionEntry) : Reads Read.handler e.bytes e := by
  rw [ExceptionEntry.bytes, append_assoc, append_assoc]
  exact (Reads.u16 _ _).bind ((Reads.u16 _ _).bind ((Reads.u16 _ _).bind (Reads.u16 _ _).bind_pure))

namespace CodeAttribute

variable {c : CodeAttribute} {p p' : Pool} {a : Attribute}

lemma encode_eq_ok (h : c.encode p = .ok (a, p')) :
    ∃ handlers attributes, Encode.count c.handlers.length "exception handlers" = .ok handlers ∧
    Encode.attributes c.attributes = .ok attributes ∧
    a.data = [Bytes.ofU16 c.maxStack, Bytes.ofU16 c.maxLocals,
    Bytes.ofU32 (UInt32.ofNat c.code.length), c.code, handlers,
    c.handlers.flatMap ExceptionEntry.bytes, attributes].flatten := by
  obtain ⟨handlers, q, hhandlers, h⟩ := StateT.bind_eq_ok_iff.1 h
  obtain ⟨attributes, r, hattributes, h⟩ := StateT.bind_eq_ok_iff.1 h
  refine ⟨handlers, attributes, (StateT.lift_eq_ok_iff.1 hhandlers).1,
    (StateT.lift_eq_ok_iff.1 hattributes).1, ?_⟩
  obtain ⟨rfl, -⟩ := Prod.mk.inj (Except.ok.inj h)
  rfl

/-- What is written of an attribute is part of its body. -/
lemma short_of_mem {as : List Attribute} {bs : Bytes} (h : Encode.attributes as = .ok bs)
    (hbs : bs.length < 2 ^ 32) : ∀ a ∈ as, a.Short := by
  intro a ha
  obtain ⟨n, hn, h⟩ := bind_eq_ok_iff.1 h
  obtain rfl := pure_eq_ok_iff.1 h
  have hle : (Encode.oneAttribute a).length ≤ (as.flatMap Encode.oneAttribute).length :=
    (sublist_flatten_of_mem (mem_map_of_mem ha)).length_le
  rw [length_append] at hbs
  simp only [Encode.oneAttribute, length_append] at hle
  unfold Attribute.Short
  omega

/-- A code attribute is read back. -/
lemma parse_of_encode (h : c.encode p = .ok (a, p')) (ha : a.Short) : parse a = .ok c := by
  obtain ⟨handlers, attributes, hhandlers, hattributes, hdata⟩ := encode_eq_ok h
  obtain ⟨rfl, hn⟩ := Encode.count_eq_ok hhandlers
  unfold Attribute.Short at ha
  rw [hdata] at ha
  simp only [flatten_cons, flatten_nil, append_nil, length_append] at ha
  have hsize : (UInt32.ofNat c.code.length).toNat = c.code.length := by
    rw [UInt32.toNat_ofNat']
    exact Nat.mod_eq_of_lt (by omega)
  have hreads : Reads Read.codeAttribute a.data c := by
    rw [hdata]
    simp only [flatten_cons, flatten_nil, append_nil]
    refine (Reads.u16 _ _).bind ((Reads.u16 _ _).bind ((Reads.u32 _ _).bind ?_))
    rw [hsize]
    refine (Reads.bytes c.code _).bind ((Reads.u16 _ _).bind ?_)
    rw [hn]
    exact (Reads.times_flatMap fun e _ => Reads.handler e).bind
      (Reads.attributes (short_of_mem hattributes (by omega)) hattributes).bind_pure
  have hall := hreads []
  rw [append_nil] at hall
  unfold parse
  rw [StateT.run, hall]
  rfl

end CodeAttribute

/-! ### Pools of constants -/

lemma PoolConst.adds (c : PoolConst) : Pool.Adds c.add := by
  cases c with
  | utf8 | int | float | long | double => exact Pool.adds_add _
  | cls name => exact Pool.adds_cls name
  | str s => exact Pool.adds_str s
  | nameAndType name desc => exact Pool.adds_nameAndType name desc
  | field owner name desc => exact Pool.adds_field owner name desc
  | method owner name desc isInterface => exact Pool.adds_method owner name desc isInterface

/-- Pools that are made by adding constants are coherent. -/
lemma Pool.coherent_ofConsts (cs : List PoolConst) : (Pool.ofConsts cs).Coherent := by
  have hadds : Adds (cs.mapM PoolConst.add) := by
    induction cs with
    | nil => exact fun p hp => ⟨hp, .refl p⟩
    | cons c cs ih =>
      rw [mapM_cons]
      exact .bind c.adds fun _ => .bind ih fun _ p hp => ⟨hp, .refl p⟩
  exact (hadds coherent_empty).1

/-- Class files are read back. A class file over a pool made of any constants that can be written is
read from its bytes with the same versions, entries at the same indices, flags, references, members
and attributes; a code attribute that can be written is read from its body. -/
theorem ClassFile.parse_bytes :
    (∀ (cf : ClassFile) (cs : List PoolConst) (data : Bytes), cf.pool = Pool.ofConsts cs →
      cf.Short → cf.bytes = .ok data → ∃ p : Pool, p.entries = cf.pool.entries ∧
        ClassFile.parse data = .ok { cf with pool := p }) ∧
    ∀ (c : CodeAttribute) (p p' : Pool) (a : Attribute), c.encode p = .ok (a, p') → a.Short →
      CodeAttribute.parse a = .ok c := by
  refine ⟨fun cf cs data hpool hs h => ?_, fun c p p' a h ha => CodeAttribute.parse_of_encode h ha⟩
  exact ClassFile.parse_of_bytes (hpool ▸ Pool.coherent_ofConsts cs) hs h

/-- A class with a constant of two indices in the last place of its pool, and a text with a zero and
a supplementary character. -/
def wideClass : ClassFile where
  major := 52
  pool := Pool.ofConsts [.utf8 "\x00𝄞", .long (-1)]
  access := 0x21
  this := 1
  interfaces := [1, 1]
  methods := [⟨0, 1, 1, [⟨1, [7]⟩, ⟨1, []⟩]⟩]

lemma wideClass_pool : ∃ index, wideClass.pool =
    { entries := #[none, some (.utf8 "\x00𝄞"), some (.long (-1)), none], index } := by
  have hfirst : (Pool.add (.utf8 "\x00𝄞") .empty).2 =
      { entries := #[none, some (.utf8 "\x00𝄞")],
        index := (∅ : Std.HashMap _ _).insert (.utf8 "\x00𝄞") 1 } := by
    simp [Pool.add, Pool.empty, Pool.count, Pool.limit, Entry.slots, Entry.isWide]
  have hpool : wideClass.pool =
      (Pool.add (.long (-1)) (Pool.add (.utf8 "\x00𝄞") .empty).2).2 := rfl
  rw [hpool, hfirst]
  simp [Pool.add, Pool.count, Pool.limit, Entry.slots, Entry.isWide]

/-- A body with a handler and an attribute of its own. -/
def guardedReturn : CodeAttribute where
  maxStack := 2
  maxLocals := 1
  code := [0x04, 0xAC]
  handlers := [⟨0, 1, 1, 0⟩]
  attributes := [⟨1, [3]⟩]

theorem parse_bytes_wideClass :
    (∃ data, wideClass.bytes = .ok data ∧ ∃ p : Pool, p.entries = wideClass.pool.entries ∧
      ClassFile.parse data = .ok { wideClass with pool := p }) ∧
    ∃ a p, guardedReturn.encode .empty = .ok (a, p) ∧
    CodeAttribute.parse a = .ok guardedReturn := by
  obtain ⟨index, hpool⟩ := wideClass_pool
  obtain ⟨data, hdata⟩ : ∃ data, wideClass.bytes = .ok data := by
    unfold ClassFile.bytes
    rw [hpool]
    exact ⟨_, rfl⟩
  have hs : wideClass.Short :=
    ⟨by simp [wideClass], by simp [wideClass, Member.Short, Attribute.Short], by simp [wideClass]⟩
  refine ⟨⟨data, hdata, ClassFile.parse_bytes.1 wideClass _ data rfl hs hdata⟩, _, _, rfl, ?_⟩
  exact ClassFile.parse_bytes.2 guardedReturn .empty _ _ rfl (by unfold Attribute.Short; decide)

end Classwright
