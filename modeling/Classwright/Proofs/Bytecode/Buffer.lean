import Classwright.Bytecode.Buffer
import Classwright.Proofs.Bytecode.Transcript

/-!
The buffer holds the bytes of the code.

A buffer runs beside the assembler (`Buffer.calls`). At each moment its bytes are those of the
items, with placeholders for the labels that are not resolved, and all of these are noted
(`Buffer.Holds`). Once code is finished no placeholder is left: `Buffer.bytes_calls`.
-/

namespace Classwright

open List

namespace Piece

variable {position? : Label → Option Nat} {p : Nat} {c : Code} {i : Item} {ps : List Piece}

/-- The bytes of a piece as far as positions are known. -/
def draft (position? : Label → Option Nat) : Piece → Bytes
  | bytes bs => bs
  | distance l r => ((position? l).bind r.bytes?).getD r.placeholder

/-- The bytes of a piece before any label is known. -/
abbrev blank : Piece → Bytes := draft fun _ => none

@[simp] lemma draft_bytes (bs : Bytes) : (bytes bs).draft position? = bs := rfl

lemma length_bytes? {r : Pending} {target : Nat} {d : Bytes} (h : r.bytes? target = some d) :
    d.length = r.placeholder.length := by
  simp only [Pending.bytes?, Pending.placeholder] at h ⊢
  split_ifs at h ⊢
  all_goals
    obtain rfl := Option.some.inj h
    rfl

/-- A placeholder is as long as what it stands for. -/
lemma length_draft (position? : Label → Option Nat) (ps : List Piece) :
    (ps.flatMap (draft position?)).length = (ps.flatMap blank).length := by
  rw [length_flatMap, length_flatMap]
  refine congrArg sum (map_congr_left fun x _ => ?_)
  cases x with
  | bytes => rfl
  | distance l r =>
    cases h : (position? l).bind r.bytes? with
    | none => simp [draft, h]
    | some d =>
      obtain ⟨t, -, ht⟩ := Option.bind_eq_some_iff.1 h
      simpa [draft, h] using length_bytes? ht

lemma length_blank (i : Item) (p : Nat) : ((i.pieces p).flatMap blank).length = i.size p := by
  cases i with
  | table | lookup =>
    simp [Item.pieces, Item.size, draft, Pending.placeholder, Bytes.ofInt32, Bytes.ofU32,
      Function.comp_def, flatMap_def, map_flatten, sum_flatten]
    omega
  | _ => rfl

/-- The parts of an instruction whose labels are resolved are its bytes. -/
lemma draft_item (hjump : ∀ o l, i = .jump o l → ∃ t, c.position? l = some t ∧ InReach p t)
    (hfar : ∀ l ∈ i.farLabels, ∃ t, c.position? l = some t) :
    (i.pieces p).flatMap (draft c.position?) = c.itemBytes p i := by
  have hwide {l : Label} (hl : l ∈ i.farLabels) :
      (distance l ⟨p, true⟩).draft c.position? = Bytes.ofInt32 (c.distance p l) := by
    obtain ⟨t, ht⟩ := hfar l hl
    simp [draft, ht, Pending.bytes?, Code.distance]
  cases i with
  | jump o l =>
    obtain ⟨t, ht, hr⟩ := hjump o l rfl
    have hd : Pending.bytes? ⟨p, false⟩ t = some (Bytes.ofInt16 (t - p)) := if_pos hr
    simp [Item.pieces, Code.itemBytes, draft, ht, hd, Code.distance]
  | table low high default targets =>
    have htargets := flatMap_congr fun l hl => hwide (l := l) (mem_cons_of_mem default hl)
    simp [Item.pieces, Code.itemBytes, flatMap_map, htargets, hwide mem_cons_self]
  | lookup default cases =>
    have hcases := flatMap_congr fun x (hx : x ∈ cases) => congrArg (Bytes.ofInt32 x.1.toInt ++ ·)
      (hwide (mem_cons_of_mem _ (mem_map_of_mem hx)))
    simp [Item.pieces, Code.itemBytes, flatMap_assoc, hcases, hwide mem_cons_self]
  | _ => simp [Item.pieces, Code.itemBytes]

end Piece

namespace Buffer

variable {b : Buffer} {position? : Label → Option Nat} {ps : List Piece} {c d : Code} {l : Label}
  {is : List Item} {xs : List Call} {tr : Transcript}

/-! ### What a buffer holds -/

/-- The parts of items, the last of which comes first. -/
def pieces : List Item → List Piece
  | [] => []
  | i :: is => pieces is ++ i.pieces (extent is)

/-- The distances to a label in pieces that begin at an offset. -/
def spots (l : Label) : Nat → List Piece → List (Nat × Pending)
  | _, [] => []
  | n, .bytes bs :: ps => spots l (n + bs.length) ps
  | n, .distance k r :: ps =>
    (if k = l then [(n, r)] else []) ++ spots l (n + r.placeholder.length) ps

/-- The bytes are those of the pieces, and what waits for a label is noted. -/
structure Holds (b : Buffer) (position? : Label → Option Nat) (ps : List Piece) : Prop where
  bytes : b.bytes = ps.flatMap (Piece.draft position?)
  refs : ∀ l, position? l = none → b.refs l = spots l 0 ps

lemma spots_append (n : Nat) (qs : List Piece) :
    spots l n (ps ++ qs) = spots l n ps ++ spots l (n + (ps.flatMap Piece.blank).length) qs := by
  induction ps generalizing n with
  | nil => rfl
  | cons x ps ih => cases x <;> simp [spots, ih, Piece.draft, Nat.add_assoc]

lemma length_pieces (is : List Item) : ((pieces is).flatMap Piece.blank).length = extent is := by
  induction is with
  | nil => rfl
  | cons i is ih => rw [pieces, flatMap_append, length_append, ih, Piece.length_blank, extent]

/-- A distance is patched where its placeholder stands. -/
lemma patch_placeholder (front rest : Bytes) (target : Nat) (r : Pending) :
    patch target (front ++ (r.placeholder ++ rest)) (front.length, r) =
      front ++ ((r.bytes? target).getD r.placeholder ++ rest) := by
  unfold patch
  cases h : r.bytes? target with
  | none => rfl
  | some d => simp [Piece.length_bytes? h]

/-! ### Steps -/

lemma Holds.write (h : b.Holds position? ps) (p : Piece) :
    (b.write position? p).Holds position? (ps ++ [p]) := by
  have hlen : b.bytes.length = (ps.flatMap Piece.blank).length := by
    rw [h.bytes, Piece.length_draft]
  unfold Buffer.write
  cases p with
  | bytes bs => exact ⟨by simp [h.bytes], fun l hl => by simp [spots_append, spots, h.refs l hl]⟩
  | distance k r =>
    dsimp only
    split
    · next target hk =>
      have hp := patch_placeholder b.bytes [] target r
      simp only [append_nil] at hp
      refine ⟨by simp [hp, ← h.bytes, Piece.draft, hk], fun l hl => ?_⟩
      have hne : k ≠ l := by
        rintro rfl
        simp [hl] at hk
      simp [spots_append, spots, hne, h.refs l hl]
    · next hk =>
      refine ⟨by simp [h.bytes, Piece.draft, hk], fun l hl => ?_⟩
      by_cases hkl : k = l
      · subst hkl
        simp [spots_append, spots, h.refs k hl, hlen]
      · simp [spots_append, spots, hkl, Ne.symm hkl, h.refs l hl]

lemma Holds.length (h : b.Holds position? (pieces is)) : b.bytes.length = extent is := by
  rw [h.bytes, Piece.length_draft, length_pieces]

lemma Holds.push (h : b.Holds position? (pieces is)) (i : Item) :
    (b.push position? i).Holds position? (pieces (i :: is)) := by
  have hfold (qs : List Piece) {b : Buffer} {ps : List Piece} (h : b.Holds position? ps) :
      (qs.foldl (Buffer.write position?) b).Holds position? (ps ++ qs) := by
    induction qs generalizing b ps with
    | nil => simpa using h
    | cons q qs ih => simpa using ih (h.write q)
  rw [Buffer.push, h.length]
  exact hfold _ h

/-- Patching all that waits for a label. -/
lemma foldl_patch (ps : List Piece) (front : Bytes) (target : Nat) (hl : position? l = none) :
    (spots l front.length ps).foldl (patch target) (front ++ ps.flatMap (Piece.draft position?)) =
      front ++ ps.flatMap (Piece.draft fun k => if k = l then some target else position? k) := by
  induction ps generalizing front with
  | nil => rfl
  | cons p ps ih =>
    -- the piece joins the front with the bytes that it has in the end
    have hnext := ih (front ++ p.draft fun k => if k = l then some target else position? k)
    have hlen := Piece.length_draft (fun k => if k = l then some target else position? k) [p]
    simp only [flatMap_singleton] at hlen
    rw [length_append, hlen, append_assoc, append_assoc] at hnext
    rw [flatMap_cons, flatMap_cons, ← hnext]
    cases p with
    | bytes bs => rfl
    | distance k r =>
      by_cases hk : k = l
      · subst hk
        simp [spots, Piece.draft, hl, patch_placeholder]
      · simp [spots, hk, Piece.draft]

lemma Holds.mark (h : b.Holds position? ps) (hl : position? l = none) :
    (b.mark l).Holds (fun k => if k = l then some b.bytes.length else position? k) ps := by
  refine ⟨?_, fun k hk => ?_⟩
  · have hp := foldl_patch ps [] b.bytes.length hl
    rw [Buffer.mark, h.refs l hl]
    simpa [← h.bytes] using hp
  · split_ifs at hk with hne
    simp [Buffer.mark, hne, h.refs k hk]

/-! ### Runs -/

/-- The buffer after a call that turns code `c` into `d`: the items that the call has added are
written. -/
def call (b : Buffer) (c d : Code) : Call → Buffer
  | .emission _ =>
    (d.items.take (d.items.length - c.items.length)).foldr (fun i b => b.push c.position? i) b
  | .here => b.mark c.here.1
  | .mark l | .join l => b.mark l
  | .newLabel | .guard _ => b

/-- The buffer after one call after another. -/
def calls (b : Buffer) (c : Code) : List Call → Except Misuse Buffer
  | [] => .ok b
  | x :: xs => do
    let d ← c.call x
    (b.call c d x).calls d xs

/-- One call: the buffer goes on holding the items. -/
lemma Holds.call {x : Call} (hb : b.Holds c.position? (pieces c.items)) (hc : c.Follows tr)
    (hx : tr.Allows x) (h : c.call x = .ok d) (hd : d.error = none) :
    (b.call c d x).Holds d.position? (pieces d.items) := by
  have hsize : b.bytes.length = c.size := hb.length.trans hc.size.symm
  have hmarked {l : Label} {e : Option CodeError} {reachable : Bool} (hlt : l.id < tr.labels.length)
      (hl : c.position? l = none) :
      (b.mark l).Holds (c.marked l reachable e).position? (pieces c.items) := by
    convert hb.mark hl using 1
    funext k
    rw [Code.position?, Code.labelState_marked, hsize, hc.labels]
    simp only [hlt, and_true]
    split_ifs <;> rfl
  -- a label that is added is not known before
  have hpushed (s : LabelState) : ({ c with labels := c.labels.push s } : Code).position? =
      fun k => if k = ⟨c.labels.size⟩ then s.position else c.position? k := by
    funext k
    by_cases hk : k = ⟨c.labels.size⟩
    · simp [Code.position?, Code.labelState_push, hk]
    · have hid : k.id ≠ c.labels.size := fun h => hk (Label.eq_iff.2 h.symm)
      simp [Code.position?, Code.labelState_push, hk, hid]
  have hfresh : c.position? ⟨c.labels.size⟩ = none :=
    congrArg LabelState.position (Code.not_referred_of_le (le_refl c.labels.size))
  cases x with
  | emission e =>
    obtain ⟨hfit, hlabels⟩ := hx
    rw [← hc.labels] at hlabels
    rcases Code.emission_eq_ok hfit hlabels h with ⟨err, rfl⟩ | ⟨i, -, hi⟩
    · exact absurd hd (Code.fail_error_ne_none err)
    · rw [Buffer.call, funext hi.position, hi.items]
      simpa using hb.push i
  | newLabel =>
    obtain rfl := Except.ok.inj h
    have hpos : c.newLabel.2.position? = c.position? := by
      refine (hpushed {}).trans (funext fun k => ite_eq_right_iff.2 ?_)
      rintro rfl
      exact hfresh.symm
    exact hpos ▸ hb
  | here =>
    obtain rfl := Except.ok.inj h
    have hpos : c.here.2.position? =
        fun k => if k = c.here.1 then some b.bytes.length else c.position? k := by
      rw [hsize]
      exact hpushed _
    exact hpos ▸ hb.mark hfresh
  | mark l =>
    obtain ⟨hl, e, rfl, -⟩ := Code.mark_eq_ok h
    exact hmarked hx hl
  | join l =>
    obtain ⟨hl, e, rfl, -⟩ := Code.join_eq_ok h
    exact hmarked hx hl
  | guard g =>
    obtain rfl := Except.ok.inj h
    exact hb

/-- All calls of code that has not failed. -/
lemma Holds.calls (hb : b.Holds c.position? (pieces c.items)) (hc : c.Follows tr)
    (hxs : tr.AllowsAll xs) (h : c.calls xs = .ok d) (hd : d.error = none) :
    ∃ b', b.calls c xs = .ok b' ∧ b'.Holds d.position? (pieces d.items) := by
  induction xs generalizing b c tr with
  | nil =>
    obtain rfl := Except.ok.inj h
    exact ⟨b, rfl, hb⟩
  | cons x xs ih =>
    obtain ⟨c', hx, h⟩ := Except.bind_eq_ok_iff.1 h
    have herr := Code.error_of_calls h hd
    rcases Code.call_eq_ok hxs.1 hc hx with hne | hc'
    · exact absurd herr hne
    · obtain ⟨b', hb', hholds⟩ := ih (hb.call hc hxs.1 hx herr) hc' hxs.2 h
      exact ⟨b', Except.bind_eq_ok_iff.2 ⟨c', hx, hb'⟩, hholds⟩

/-- The buffer of finished code holds its bytes: all distances have been patched. -/
lemma bytes_calls {bs : Bytes} {hs : List ExceptionEntry} (hxs : ({} : Transcript).AllowsAll xs)
    (h : Code.empty.calls xs = .ok c) (hfin : c.finish = .ok (bs, hs)) :
    ∃ b, ({} : Buffer).calls .empty xs = .ok b ∧ b.bytes = bs := by
  obtain ⟨herr, -, hsize, -, -, rfl⟩ := Code.finish_eq_ok hfin
  have hc := Code.follows_empty.calls hxs h herr
  obtain ⟨b, hb, hholds⟩ :=
    Holds.calls (b := {}) ⟨rfl, fun _ _ => rfl⟩ Code.follows_empty hxs h herr
  refine ⟨b, hb, ?_⟩
  have hflat {is : List Item} (his : is <:+ c.items) :
      (pieces is).flatMap (Piece.draft c.position?) = c.flat is := by
    induction is with
    | nil => rfl
    | cons i is ih =>
      rw [pieces, flatMap_append, ih ((suffix_cons _ _).trans his), Code.flat, Piece.draft_item]
      · exact fun o l ho => (hc.laid hsize).resolved hfin (o := o) ⟨is, ho ▸ his, rfl⟩
      · exact fun l hl => (hc.far (his.subset mem_cons_self) hl).resolved hfin
  rw [hholds.bytes, Code.bytes_eq, hflat (suffix_refl _)]

end Buffer

end Classwright
