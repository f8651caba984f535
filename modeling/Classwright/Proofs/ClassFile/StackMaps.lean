import Classwright.ClassFile.StackMap
import Classwright.Proofs.ClassFile.Resolution
import Classwright.Proofs.ClassFile.RoundTrip

/-!
Stack maps, read back.

* `StackMap.readFrames`: the grammar of class files. The first byte of a frame tells its form: how
  far it is from the frame before, whether it has the locals of that frame, fewer or more, or lists
  its own, and what is on the stack. The classes of types are found in the pool.
* `Spells`: what a computation writes is read as a value, with any later pool that has not
  overflowed. It is kept by sequencing, so each part of a map is read by the part of the grammar
  that stands for it.
* `Attribute.read_stackMap`: the body of a map is read as the frames it was made of.
* `StackMap.dense_not_read`: a frame at each of the 65536 offsets is one more than can be counted.
-/

namespace Classwright

open List

/-! ### The grammar -/

namespace StackMap

def byte : ReadM UInt8 := do return (← Read.bytes 1 "stack map").headD 0

def readClass (p : Pool) : ReadM VType := do
  let i ← Read.u16 "class index"
  (p.classAt i).toOption.elim (throw (.badTag 7 i.toNat)) fun c => return .ref c

def readType (p : Pool) : ReadM VType := do
  let tag ← byte
  match tag.toNat with
  | 0 => return .top
  | 1 => return .int
  | 2 => return .float
  | 3 => return .double
  | 4 => return .long
  | 5 => return .null
  | 6 => return .uninitThis
  | 7 => readClass p
  | 8 => return .uninit (← Read.u16 "offset").toNat
  | _ => throw (.badTag tag 0)

def readTypes (p : Pool) : Nat → ReadM (List VType)
  | 0 => return []
  | n + 1 => do return (← readType p) :: (← readTypes p n)

/-- Reads types with their number in front. -/
def readCounted (p : Pool) : ReadM (List VType) := do readTypes p (← Read.u16 "count").toNat

/-- Reads the rest of a frame whose form has a distance of two bytes. -/
def readDistant (p : Pool) (prev : List VType) (form offset : Nat) : ReadM MapFrame :=
  if form = 247 then do return ⟨offset, prev, [← readType p]⟩
  else if form ≤ 250 then
    if 251 - form ≤ prev.length then return ⟨offset, prev.take (prev.length - (251 - form)), []⟩
    else throw (.badTag (UInt8.ofNat form) offset)
  else if form = 251 then return ⟨offset, prev, []⟩
  else if form ≤ 254 then do return ⟨offset, prev ++ (← readTypes p (form - 251)), []⟩
  else do return ⟨offset, ← readCounted p, ← readCounted p⟩

/-- Reads a frame at `next` or behind it, where `prev` are the locals of the frame before. The forms
from 128 to 246 are reserved. -/
def readFrame (p : Pool) (next : Nat) (prev : List VType) : ReadM MapFrame := do
  let form ← byte
  if form.toNat < 64 then return ⟨next + form.toNat, prev, []⟩
  else if form.toNat < 128 then return ⟨next + (form.toNat - 64), prev, [← readType p]⟩
  else if form.toNat < 247 then throw (.badTag form next)
  else readDistant p prev form.toNat (next + (← Read.u16 "offset").toNat)

/-- Reads `n` frames, each relative to the one before it. -/
def readFrames (p : Pool) : Nat → Nat → List VType → ReadM (List MapFrame)
  | 0, _, _ => return []
  | n + 1, next, prev => do
    let f ← readFrame p next prev
    return f :: (← readFrames p n (f.offset + 1) f.locals)

/-- Reads the body of the attribute of a method that starts with `initial` locals. No bytes may be
left over. -/
def read (p : Pool) (initial : List VType) (body : Bytes) : Option (List MapFrame) :=
  (StateT.run (do readFrames p (← Read.u16 "frame count").toNat 0 initial) body).toOption.bind
    fun r =>
    if r.2 = [] then some r.1 else none

end StackMap

/-! ### Reading what was written -/

open StackMap Pool

variable {bs : Bytes} {vs : List VType} {frames : List MapFrame}

lemma Reads.byte_bind {α : Type} {f : UInt8 → ReadM α} {b : UInt8} {a : α} (h : Reads (f b) bs a) :
    Reads (byte >>= f) (b :: bs) a :=
  (show Reads byte [b] b from (Reads.bytes [b] _).bind_pure).bind h

/-- A computation adds to a pool, and what it writes is read as `a`, with any later pool that has
not overflowed. -/
structure Spells {α : Type} (m : PoolM Bytes) (r : Pool → ReadM α) (a : α) : Prop where
  adds : Adds m
  reads : ∀ ⦃p q : Pool⦄, p.Coherent → (m p).2.Extends q → q.overflowed = false →
    Reads (r q) (m p).1 a

namespace Spells

variable {α β γ : Type} {m n : PoolM Bytes} {r : Pool → ReadM α} {s : Pool → ReadM β}
  {a : α} {b : β} {bs : Bytes}

/-- Bytes that do not depend on the pool. -/
lemma pure (h : ∀ p, Reads (r p) bs a) : Spells (Pure.pure bs) r a where
  adds p hp := ⟨hp, .refl p⟩
  reads _ q _ _ _ := h q

/-- Bytes in front that do not depend on the pool. -/
lemma prepend (hm : Spells m r a) (h : ∀ p more, Reads (r p) more a → Reads (s p) (bs ++ more) b) :
    Spells (do return bs ++ (← m)) s b where
  adds _ hp := hm.adds hp
  reads _ q hp he ho := h q _ (hm.reads hp he ho)

/-- What is written in sequence is read in sequence. -/
lemma append {t : Pool → ReadM γ} {c : γ} (hm : Spells m r a) (hn : Spells n s b)
    (h : ∀ p bs bs', Reads (r p) bs a → Reads (s p) bs' b → Reads (t p) (bs ++ bs') c) :
    Spells (do return (← m) ++ (← n)) t c where
  adds p hp := by
    obtain ⟨hc, he⟩ := hm.adds hp
    obtain ⟨hc', he'⟩ := hn.adds hc
    exact ⟨hc', he.trans he'⟩
  reads p q hp he ho := by
    obtain ⟨hc, -⟩ := hm.adds hp
    obtain ⟨-, he'⟩ := hn.adds hc
    exact h q _ _ (hm.reads hp (he'.trans he) ho) (hn.reads hc he ho)

end Spells

/-! ### Types -/

/-- Where an object was made is an offset of two bytes. -/
def VType.Short (v : VType) : Prop := ∀ offset, v = .uninit offset → offset < 65536

lemma reads_class {p : Pool} {i : UInt16} {c : String} (hc : p.classAt i = .ok c) :
    Reads (readClass p) (Bytes.ofU16 i) (.ref c) := by
  intro rest
  refine StateT.bind_eq_ok_iff.2 ⟨i, rest, Reads.u16 i _ rest, ?_⟩
  rw [hc]
  rfl

lemma VType.spells {v : VType} (hv : v.Short) : Spells v.encode readType v := by
  cases v with
  | ref c =>
    refine ⟨.bind (adds_cls c) fun _ p hp => ⟨hp, .refl p⟩, fun p q hp he ho => .byte_bind ?_⟩
    exact reads_class ((puts_cls c).later lasts_classAt hp he ho)
  | uninit offset =>
    have hread :=
      (Reads.u16 (UInt16.ofNat offset) "offset").bind_pure (g := fun i => VType.uninit i.toNat)
    rw [UInt16.toNat_ofNat', Nat.mod_eq_of_lt (hv offset rfl)] at hread
    exact .pure fun _ => .byte_bind hread
  | _ => exact .pure fun _ => .byte_bind (.pure _)

lemma encodeTypes_cons (v : VType) (vs : List VType) :
    encodeTypes (v :: vs) = (do return (← v.encode) ++ (← encodeTypes vs)) := by
  simp [encodeTypes, mapM_cons]

lemma spells_types (hv : ∀ v ∈ vs, v.Short) :
    Spells (encodeTypes vs) (readTypes · vs.length) vs := by
  induction vs with
  | nil => exact .pure fun _ => .pure _
  | cons v vs ih =>
    rw [encodeTypes_cons]
    exact (VType.spells (hv v (by simp))).append (ih fun w hw => hv w (by simp [hw]))
      fun _ _ _ hfirst hrest => hfirst.bind hrest.bind_pure

def encodeCounted (vs : List VType) : PoolM Bytes := do
  return lengthBytes vs ++ (← encodeTypes vs)

/-- A number in front says how much is read. -/
lemma reads_lengthBytes {α β : Type} {xs : List β} (hlen : xs.length ≤ 65535) {r : Nat → ReadM α}
    {a : α} (h : Reads (r xs.length) bs a) (what : String) :
    Reads (do r (← Read.u16 what).toNat) (lengthBytes xs ++ bs) a := by
  refine (Reads.u16 _ _).bind ?_
  rwa [UInt16.toNat_ofNat', Nat.mod_eq_of_lt (by omega)]

lemma spells_counted (hv : ∀ v ∈ vs, v.Short) (hlen : vs.length ≤ 65535) :
    Spells (encodeCounted vs) readCounted vs :=
  (spells_types hv).prepend fun _ _ h => reads_lengthBytes hlen h _

/-! ### Frames -/

namespace MapFrame

/-- A frame whose parts can be written. -/
structure Short (f : MapFrame) : Prop where
  offset : f.offset ≤ 65535
  locals : f.locals.length ≤ 65535
  stack : f.stack.length ≤ 65535
  types : ∀ v ∈ f.locals ++ f.stack, v.Short

variable {f : MapFrame} {next d : Nat} {prev : List VType} {p : Pool} {bs : Bytes}
  {locals : List VType}

/-- A form with a distance of two bytes. -/
lemma reads_header {form : UInt8} (hform : 247 ≤ form.toNat) (hd : d ≤ 65535)
    (h : Reads (readDistant p prev form.toNat (next + d)) bs f) :
    Reads (readFrame p next prev) (header form d ++ bs) f := by
  have hdist : (UInt16.ofInt (d : Int)).toNat = d := by
    simp only [UInt16.ofInt, UInt16.toNat_ofNat']
    omega
  refine .byte_bind ?_
  rw [if_neg (by omega), if_neg (by omega), if_neg (by omega)]
  refine (Reads.u16 _ _).bind ?_
  rwa [hdist]

lemma toNat_ofInt {i : Int} {n : Nat} (hi : i = n) (h : n < 256) : (UInt8.ofInt i).toNat = n := by
  simp only [hi, UInt8.ofInt, UInt8.toNat_ofNat']
  omega

lemma toNat_form {k : Nat} (hk : k ≤ 3) :
    (251 - UInt8.ofNat k).toNat = 251 - k ∧ (251 + UInt8.ofNat k).toNat = 251 + k := by
  interval_cases k <;> decide

/-- The locals of the frame before and an empty stack. -/
lemma spells_same (hd : d ≤ 65535) :
    Spells (Pure.pure (if (d : Int) < 64 then [UInt8.ofInt d] else header 251 d))
    (readFrame · next prev) ⟨next + d, prev, []⟩ := by
  refine .pure fun p => ?_
  split_ifs with h
  · refine .byte_bind ?_
    rw [toNat_ofInt rfl (by omega : d < 256), if_pos (by omega)]
    exact .pure _
  · rw [← append_nil (header _ _)]
    exact reads_header (by decide) hd (.pure _)

/-- The locals of the frame before and one value on the stack. -/
lemma spells_one (hd : d ≤ 65535) {v : VType} (hv : v.Short) :
    Spells (do return (if (d : Int) < 64 then [UInt8.ofInt (64 + d)] else header 247 d) ++
    (← v.encode)) (readFrame · next prev) ⟨next + d, prev, [v]⟩ := by
  refine (VType.spells hv).prepend fun p more hread => ?_
  split_ifs with h
  · refine .byte_bind ?_
    rw [toNat_ofInt (n := 64 + d) (by simp) (by omega), if_neg (by omega), if_pos (by omega),
      Nat.add_sub_cancel_left]
    exact hread.bind_pure
  · exact reads_header (by decide) hd hread.bind_pure

/-- The locals of the frame before without the last one, two or three. -/
lemma spells_chop (hd : d ≤ 65535) (hlt : locals.length < prev.length)
    (hle : prev.length ≤ locals.length + 3) (htake : prev.take locals.length = locals) :
    Spells (Pure.pure (header (251 - UInt8.ofNat (prev.length - locals.length)) d))
      (readFrame · next prev) ⟨next + d, locals, []⟩ := by
  refine .pure fun p => ?_
  have hform := (toNat_form (k := prev.length - locals.length) (by omega)).1
  have hlen : prev.length - (251 - (251 - (prev.length - locals.length))) = locals.length := by
    omega
  rw [← append_nil (header _ _)]
  refine reads_header (by omega) hd ?_
  rw [hform, readDistant, if_neg (by omega), if_pos (by omega), if_pos (by omega), hlen, htake]
  exact .pure _

/-- The locals of the frame before and one, two or three more. -/
lemma spells_append (hd : d ≤ 65535) (hlt : prev.length < locals.length)
    (hle : locals.length ≤ prev.length + 3) (htake : locals.take prev.length = prev)
    (hv : ∀ v ∈ locals, v.Short) :
    Spells (do return header (251 + UInt8.ofNat (locals.length - prev.length)) d
        ++ (← encodeTypes (locals.drop prev.length)))
      (readFrame · next prev) ⟨next + d, locals, []⟩ := by
  refine (spells_types fun v hmem => hv v (mem_of_mem_drop hmem)).prepend fun p more hread => ?_
  have hform := (toNat_form (k := locals.length - prev.length) (by omega)).2
  have hlocals : prev ++ locals.drop prev.length = locals := by
    conv_rhs => rw [← take_append_drop prev.length locals, htake]
  have hframe := hread.bind_pure (g := fun vs => (⟨next + d, prev ++ vs, []⟩ : MapFrame))
  rw [hlocals, length_drop] at hframe
  refine reads_header (by omega) hd ?_
  rwa [hform, readDistant, if_neg (by omega), if_neg (by omega), if_neg (by omega),
    if_pos (by omega), Nat.add_sub_cancel_left]

def encodeLists (f : MapFrame) : PoolM Bytes := do
  return (← encodeCounted f.locals) ++ (← encodeCounted f.stack)

lemma spells_full (hf : f.Short) (hd : f.offset = next + d) :
    Spells (f.encodeFull d) (readFrame · next prev) f := by
  have heq : f.encodeFull d = (do return header 255 d ++ (← f.encodeLists)) := by
    simp [encodeFull, encodeLists, encodeCounted]
  have hlists : Spells f.encodeLists
      (fun p => do return ⟨f.offset, ← readCounted p, ← readCounted p⟩) f :=
    (spells_counted (fun v hv => hf.types v (by simp [hv])) hf.locals).append
      (spells_counted (fun v hv => hf.types v (by simp [hv])) hf.stack)
      fun _ _ _ hlocals hstack => hlocals.bind hstack.bind_pure
  have := hf.offset
  rw [heq]
  refine hlists.prepend fun p more hread => reads_header (by decide) (by omega) ?_
  rwa [hd] at hread

/-- A frame is read at its distance from the one before it. -/
lemma spells (hf : f.Short) (hd : f.offset = next + d) :
    Spells (f.encode d prev) (readFrame · next prev) f := by
  have hdist : d ≤ 65535 := by
    have := hf.offset
    omega
  have hfull : Spells (f.encodeFull d) (readFrame · next prev) f := spells_full hf hd
  obtain ⟨offset, locals, stack⟩ := f
  obtain rfl : offset = next + d := hd
  -- Only a stack of at most one value has short forms.
  rcases stack with - | ⟨v, - | ⟨w, vs⟩⟩
  · simp only [encode]
    by_cases hsame : prev = locals
    · rw [if_pos hsame]
      exact hsame ▸ spells_same hdist
    rw [if_neg hsame]
    by_cases hchop : (locals.length < prev.length && prev.length ≤ locals.length + 3
        && prev.take locals.length == locals) = true
    · rw [if_pos hchop]
      simp only [Bool.and_eq_true, decide_eq_true_eq, beq_iff_eq] at hchop
      exact spells_chop hdist hchop.1.1 hchop.1.2 hchop.2
    rw [if_neg hchop]
    split_ifs with happ
    · simp only [Bool.and_eq_true, decide_eq_true_eq, beq_iff_eq] at happ
      exact spells_append hdist happ.1.1 happ.1.2 happ.2 fun v hv => hf.types v (by simp [hv])
    · exact hfull
  · simp only [encode]
    by_cases hsame : prev = locals
    · rw [if_pos hsame]
      exact hsame ▸ spells_one hdist (hf.types v (by simp))
    · rw [if_neg hsame]
      exact hfull
  · exact hfull

end MapFrame

/-- Frames are read one after the other. -/
lemma spells_frames (hf : ∀ f ∈ frames, f.Short) {next : Nat} {before : Int}
    (hbefore : before = (next : Int) - 1) (hnext : ∀ f ∈ frames, next ≤ f.offset)
    (hasc : frames.Pairwise (·.offset < ·.offset)) {prev : List VType} :
    Spells (encodeFrames before prev frames) (readFrames · frames.length next prev) frames := by
  induction frames generalizing next before prev with
  | nil => exact .pure fun _ => .pure _
  | cons f fs ih =>
    rw [pairwise_cons] at hasc
    obtain ⟨d, hd⟩ := Nat.exists_eq_add_of_le (hnext f (by simp))
    have hdist : (f.offset : Int) - before - 1 = d := by omega
    have hfirst : Spells (f.encode (f.offset - before - 1) prev) (readFrame · next prev) f := by
      rw [hdist]
      exact MapFrame.spells (hf f (by simp)) hd
    have hrest : Spells (encodeFrames f.offset f.locals fs)
        (readFrames · fs.length (f.offset + 1) f.locals) fs :=
      ih (fun g hg => hf g (by simp [hg])) (by omega) hasc.1 hasc.2
    exact hfirst.append hrest fun _ _ _ h h' => h.bind h'.bind_pure

lemma Attribute.data_stackMap (initial : List VType) (frames : List MapFrame) (p : Pool) :
    (Attribute.stackMap initial frames p).1.data =
    lengthBytes frames ++ (encodeFrames (-1) initial frames p).1 := rfl

lemma Attribute.pool_stackMap (initial : List VType) (frames : List MapFrame) (p : Pool) :
    (Attribute.stackMap initial frames p).2 =
      (Pool.add (.utf8 "StackMapTable") (encodeFrames (-1) initial frames p).2).2 := rfl

/-- The body of a map is read as the frames it was made of. The pools that additions make are
coherent (`Pool.coherent_ofConsts`). -/
theorem Attribute.read_stackMap {p : Pool} (hp : p.Coherent) (initial : List VType)
    (frames : List MapFrame) (hasc : frames.Pairwise (·.offset < ·.offset))
    (hf : ∀ f ∈ frames, f.Short) (hcount : frames.length ≤ 65535)
    (hfits : (Attribute.stackMap initial frames p).2.overflowed = false) :
    StackMap.read (Attribute.stackMap initial frames p).2 initial
      (Attribute.stackMap initial frames p).1.data = some frames := by
  have hbody : Spells (encodeFrames (-1) initial frames) (readFrames · frames.length 0 initial)
      frames :=
    spells_frames hf (by simp) (by simp) hasc
  obtain ⟨hc, -⟩ := hbody.adds hp
  have hlater := (adds_add (.utf8 "StackMapTable") hc).2
  have hread :=
    reads_lengthBytes (r := (readFrames _ · 0 initial)) hcount (hbody.reads hp hlater hfits)
    "frame count" []
  rw [List.append_nil] at hread
  rw [data_stackMap, StackMap.read, StateT.run, pool_stackMap, hread]
  rfl

/-- A pool that is far from full has room for another constant. -/
lemma add_fits {p : Pool} (e : Entry) (ho : p.overflowed = false) (hroom : p.count ≤ 65533) :
    (Pool.add e p).2.overflowed = false ∧ (Pool.add e p).2.count ≤ p.count + 2 := by
  have hslots : e.slots ≤ 2 := by
    unfold Entry.slots
    split <;> omega
  cases hi : p.index[e]? with
  | some i => simp [Pool.add, hi, ho]
  | none =>
    have hfits : ¬ p.count + e.slots > limit := by
      change ¬ p.count + e.slots > 65535
      omega
    simp only [Pool.add, hi, if_neg hfits, ho, true_and]
    by_cases hw : e.isWide = true <;> simp [hw, Pool.count]

/-- A map with each of the forms. -/
def StackMap.mixed : List MapFrame :=
  [⟨3, [.int], []⟩, ⟨100, [.int, .ref "a/B", .long], []⟩, ⟨101, [.int, .ref "a/B", .long], [.null]⟩,
    ⟨200, [.int], []⟩, ⟨300, [.int], [.float]⟩, ⟨40000, [], [.uninit 7, .top]⟩, ⟨65535, [], []⟩]

theorem StackMap.mixed_read :
    mixed.length ≤ 65535 ∧ StackMap.read (Attribute.stackMap [.int] mixed .empty).2 [.int]
      (Attribute.stackMap [.int] mixed .empty).1.data = some mixed := by
  have hfits : (Attribute.stackMap [.int] mixed .empty).2.overflowed = false := by
    -- The class is added once, with its name.
    have hstart : Pool.empty.count = 1 := rfl
    have hname := add_fits (p := .empty) (.utf8 "a/B") rfl (by omega)
    have hclass := add_fits (.cls (Pool.add (.utf8 "a/B") .empty).1) hname.1 (by omega)
    exact (add_fits (.utf8 "StackMapTable") hclass.1 (by omega)).1
  refine ⟨by decide, Attribute.read_stackMap (Pool.coherent_ofConsts []) [.int] mixed ?_ ?_
    (by decide) hfits⟩
  · simp [mixed]
  · intro f hf
    simp only [mixed, List.mem_cons, List.not_mem_nil, or_false] at hf
    rcases hf with rfl | rfl | rfl | rfl | rfl | rfl | rfl <;>
      exact ⟨by decide, by decide, by decide, by simp [VType.Short]⟩

/-- A frame at each offset, with nothing in it. -/
def StackMap.dense : List MapFrame := (range 65536).map fun offset => ⟨offset, [], []⟩

/-- Empty frames add nothing to a pool. -/
lemma encodeFrames_empty (h : ∀ f ∈ frames, f.locals = [] ∧ f.stack = [])
    (before : Int) (p : Pool) : (encodeFrames before [] frames p).2 = p := by
  induction frames generalizing before with
  | nil => rfl
  | cons f fs ih =>
    obtain ⟨offset, locals, stack⟩ := f
    obtain ⟨rfl, rfl⟩ : locals = [] ∧ stack = [] := h ⟨offset, locals, stack⟩ (by simp)
    exact ih (fun g hg => h g (by simp [hg])) offset

/-- The count of a map has two bytes: with 65536 frames it is read as none, and bytes are left
over. -/
theorem StackMap.dense_not_read :
    dense.Pairwise (·.offset < ·.offset) ∧ (∀ f ∈ dense, f.Short) ∧
      (Attribute.stackMap [] dense .empty).2.overflowed = false ∧
      StackMap.read (Attribute.stackMap [] dense .empty).2 []
        (Attribute.stackMap [] dense .empty).1.data = none := by
  have hempty : ∀ f ∈ dense, f.locals = [] ∧ f.stack = [] := by simp [dense]
  refine ⟨?_, ?_, ?_, ?_⟩
  · exact List.pairwise_map.2 List.pairwise_lt_range
  · intro f hf
    obtain ⟨offset, hoffset, rfl⟩ := List.mem_map.1 hf
    exact ⟨by have := List.mem_range.1 hoffset; simp only; omega, by simp, by simp, by simp⟩
  · rw [Attribute.pool_stackMap, encodeFrames_empty hempty]
    exact (add_fits _ rfl (by decide)).1
  · obtain ⟨fs, hfs⟩ : ∃ fs, dense = ⟨0, [], []⟩ :: fs := by
      rw [dense, List.range_succ_eq_map]
      exact ⟨_, rfl⟩
    have hcount : lengthBytes dense = [0, 0] := by
      rw [lengthBytes, dense, List.length_map, List.length_range]
      rfl
    rw [Attribute.data_stackMap, hcount, hfs]
    rfl

end Classwright
