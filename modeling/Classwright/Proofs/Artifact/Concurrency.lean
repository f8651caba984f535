import Mathlib.Algebra.Order.BigOperators.Group.Finset
import Mathlib.Data.List.Find
import Mathlib.Logic.Relation
import Mathlib.Tactic
import Classwright.Artifact.Index

/-!
Writes through an index at the same time.

A write through an index takes its lock twice: to compare its artifacts with the index, and to
record what it has passed on. In between, the sink below is written without it. `Indexed.Step` is
one of these three actions of one of several writes, and a run is any sequence of them.

If the writes have no path in common, none of them can tell that there are others:
`Indexed.Consistent` says of every moment of every run how the shared state is made up of the starts
and the stages of all writes.
-/

namespace Classwright

open List

/-! ### Entries by path -/

namespace Index

variable {es : List (String × IndexEntry)} {path : String} {e : IndexEntry}

lemma byPath_getElem? (es : List (String × IndexEntry)) (path : String) :
    (byPath es)[path]? = es.lookup path := by
  induction es with
  | nil => simp [byPath]
  | cons x es ih =>
    obtain ⟨p, e⟩ := x
    have hcons : byPath ((p, e) :: es) = (byPath es).insert p e := rfl
    rw [hcons, Std.TreeMap.getElem?_insert, lookup_cons, ih]
    by_cases hp : p = path
    · simp [hp]
    · have hbeq : (path == p) = false := beq_false_of_ne (Ne.symm hp)
      simp [hp, hbeq]

lemma lookup_eq_some_iff_mem (h : (es.map Prod.fst).Nodup) :
    es.lookup path = some e ↔ (path, e) ∈ es := by
  induction es with
  | nil => simp
  | cons x es ih =>
    obtain ⟨p, d⟩ := x
    obtain ⟨hp, hes⟩ := nodup_cons.1 h
    rw [lookup_cons, mem_cons, Prod.mk.injEq]
    by_cases hpath : path = p
    · subst hpath
      have hnot : (path, e) ∉ es := fun hmem => hp (mem_map.2 ⟨_, hmem, rfl⟩)
      simp [hnot, eq_comm]
    · simp [beq_false_of_ne hpath, hpath, ih hes]

lemma nodup_keys_toList (m : Std.TreeMap String IndexEntry) : (m.toList.map Prod.fst).Nodup := by
  rw [Nodup, pairwise_map]
  exact m.distinct_keys_toList.imp fun h heq => h (by simp [heq])

lemma lookup_toList (m : Std.TreeMap String IndexEntry) (path : String) :
    m.toList.lookup path = m[path]? := by
  apply Option.ext
  intro e
  rw [lookup_eq_some_iff_mem (nodup_keys_toList m), Std.TreeMap.mem_toList_iff_getElem?_eq_some]

/-- Of entries that are recorded one after the other the last with a path is found there. -/
lemma find?_insertAll (i : Index) (es : List (String × IndexEntry)) (path : String) :
    (i.insertAll es).find? path = (es.reverse.lookup path).or (i.find? path) := by
  rw [insertAll, find?, lookup_toList, byPath_getElem?, lookup_append]
  rfl

end Index

/-! ### What is at a path -/

abbrev Holdings := String → Option Bytes

/-- The last of some artifacts for a path. -/
def Artifact.last? (as : List Artifact) (path : String) : Option Artifact :=
  as.reverse.find? (·.path == path)

namespace Artifact

variable {as : List Artifact} {a : Artifact} {path : String}

lemma last?_concat : last? (as ++ [a]) path = if a.path = path then some a else last? as path := by
  simp only [last?, reverse_append, reverse_singleton, singleton_append, find?_cons]
  split <;> simp_all

lemma last?_eq_none_iff : last? as path = none ↔ ∀ a ∈ as, a.path ≠ path := by
  simp [last?]

lemma last?_of_split {pre post : List Artifact} (h : ∀ b ∈ post, b.path ≠ a.path) :
    last? (pre ++ a :: post) a.path = some a := by
  have hpost : post.reverse.find? (·.path == a.path) = none := by simpa using h
  simp [last?, find?_append, hpost]

end Artifact

/-- What is at the paths after artifacts were written one after the other. -/
def Holdings.write (h : Holdings) (as : List Artifact) : Holdings :=
  as.foldl (fun h a => Function.update h a.path (some a.data)) h

lemma Holdings.write_apply (h : Holdings) (as : List Artifact) (path : String) :
    h.write as path = ((Artifact.last? as path).map fun a => some a.data).getD (h path) := by
  induction as using reverseRecOn with
  | nil => rfl
  | append_singleton as a ih =>
    rw [write, foldl_append, foldl_cons, foldl_nil, Artifact.last?_concat]
    split
    · rename_i hp
      simp [← hp]
    · rename_i hp
      rw [Function.update_of_ne (Ne.symm hp)]
      exact ih

/-- The index has the digest of what is at each path. -/
def Index.Matches (i : Index) (h : Holdings) : Prop :=
  ∀ path, (i.find? path).map (·.hash) = (h path).map Sha256.digest

namespace Indexed

/-- What the index has of an artifact that was written. -/
def entry (runId : String) (a : Artifact) : IndexEntry :=
  ⟨a.name, Sha256.digest a.data, a.data.length, runId⟩

lemma lookup_entries (runId : String) (as : List Artifact) (path : String) :
    (as.map fun a => (a.path, entry runId a)).lookup path =
    (as.find? (·.path == path)).map (entry runId) := by
  induction as with
  | nil => rfl
  | cons a as ih =>
    rw [map_cons, lookup_cons, find?_cons, ih, BEq.comm]
    split <;> simp_all

/-- What is recorded at a path is its last artifact. -/
lemma find?_record (i : Index) (runId : String) (as : List Artifact) (path : String) :
    (record i runId as).find? path =
    ((Artifact.last? as path).map fun a => some (entry runId a)).getD (i.find? path) := by
  have hlookup := lookup_entries runId as.reverse path
  have hrecord : record i runId as = i.insertAll (as.map fun a => (a.path, entry runId a)) := rfl
  rw [hrecord, Index.find?_insertAll, ← map_reverse, hlookup, Artifact.last?]
  cases as.reverse.find? (·.path == path) <;> rfl

variable {σ ι : Type} {i : Index} {h : Holdings} {runId : String} {as : List Artifact}

/-- What is recorded when it was written is the digest of what is there. -/
lemma matches_record (hi : i.Matches h) : (record i runId as).Matches (h.write as) := by
  intro path
  rw [find?_record, Holdings.write_apply]
  cases Artifact.last? as path with
  | none => exact hi path
  | some a => rfl

/-- If digests do not collide, what changed is what is not there yet. -/
lemma changed_eq_filter (hi : i.Matches h)
    (hdigest : ∀ a ∈ as, ∀ d, h a.path = some d → Sha256.digest d = Sha256.digest a.data →
    d = a.data) : changed i as = as.filter fun a => h a.path ≠ some a.data := by
  refine filter_congr fun a ha => ?_
  have hiff : (i.find? a.path).map (·.hash) = some (Sha256.digest a.data) ↔
      h a.path = some a.data := by
    rw [hi a.path]
    refine ⟨fun hd => ?_, fun hd => by rw [hd]; rfl⟩
    obtain ⟨d, hd, heq⟩ := Option.map_eq_some_iff.1 hd
    rw [hd, hdigest a ha d hd heq]
  rw [Bool.eq_iff_iff]
  simp [hiff]

lemma changed_congr {j : Index} (h : ∀ a ∈ as, i.find? a.path = j.find? a.path) :
    changed i as = changed j as :=
  filter_congr fun a ha => by rw [h a ha]

lemma mem_of_mem_changed {a : Artifact} (ha : a ∈ changed i as) : a ∈ as := mem_of_mem_filter ha

end Indexed

/-! ### Sinks that write a unit as a whole -/

/-- Units of artifacts from `A` are written as a whole or not at all: from a state with `I`, one
that succeeds leaves all its artifacts at their paths, and one that fails leaves all paths as they
are. -/
def Sink.Transactional {σ : Type} (s : Sink σ) (A : Set Artifact) (I : σ → Prop)
    (held : σ → Holdings) : Prop :=
  ∃ f, s.writeUnit = some f ∧ ∀ as st, (∀ a ∈ as, a ∈ A) → I st → I (f as st).2 ∧
    ((f as st).1 = .ok () → held (f as st).2 = (held st).write as) ∧
    ∀ e, (f as st).1 = .error e → held (f as st).2 = held st

namespace Indexed

variable {σ ι : Type} {s : Sink σ} {A : Set Artifact} {I : σ → Prop} {held : σ → Holdings}
  {next : σ}

/-- What a sink is left with by a plan that is passed on to it. -/
lemma forward_spec (hs : s.Transactional A I held) {p : Plan} (hA : ∀ a ∈ p.changed, a ∈ A)
    (hI : I next) : I (forward s p next).2 ∧
    ((forward s p next).1 = none → held (forward s p next).2 = (held next).write p.changed) ∧
    ∀ e, (forward s p next).1 = some e → held (forward s p next).2 = held next := by
  obtain ⟨f, hf, hspec⟩ := hs
  obtain ⟨hI', hok, herror⟩ := hspec p.changed next hA hI
  unfold forward
  split
  · rename_i hempty
    refine ⟨hI, fun _ => ?_, fun e he => nomatch he⟩
    rw [isEmpty_iff.1 hempty]
    rfl
  · simp only [Sink.writeAll, hf]
    rcases hres : f p.changed next with ⟨e | ⟨⟩, next'⟩ <;> rw [hres] at hI' hok herror <;>
      dsimp only
    · exact ⟨hI', (nomatch ·), fun _ _ => herror e rfl⟩
    · exact ⟨hI', fun _ => hok rfl, fun _ h => nomatch h⟩

/-- A write, be it one that fails, leaves the index with the digests of what is there. -/
lemma matches_writeUnit (hs : s.Transactional A I held) {as : List Artifact} (hA : ∀ a ∈ as, a ∈ A)
    {st : Indexed σ} (h : I st.next ∧ st.index.Matches (held st.next)) :
    I (writeUnit s as st).2.next ∧
    (writeUnit s as st).2.index.Matches (held (writeUnit s as st).2.next) := by
  obtain ⟨hI, hok, herror⟩ :=
    forward_spec hs (p := plan as st) (fun a ha => hA a (mem_of_mem_changed ha)) h.1
  rcases hnext : forward s (plan as st) st.next with ⟨_ | e, next⟩ <;>
    rw [hnext] at hI hok herror <;>
    simp only [writeUnit, hnext]
  · exact ⟨hI, (hok rfl).symm ▸ matches_record h.2⟩
  · exact ⟨hI, (herror e rfl).symm ▸ h.2⟩

/-- After any writes, of which some may have failed, an artifact that is not passed on is at its
path, unless its digest is that of other data. -/
lemma held_of_notMem_changed (hs : s.Transactional A I held) {units : List (List Artifact)}
    (hA : ∀ as ∈ units, ∀ a ∈ as, a ∈ A) {st st' : Indexed σ}
    (h : I st.next ∧ st.index.Matches (held st.next))
    (hst' : st' = units.foldl (fun st as => (writeUnit s as st).2) st) {as : List Artifact}
    {a : Artifact} (hdigest : ∀ a ∈ as, ∀ d, held st'.next a.path = some d →
    Sha256.digest d = Sha256.digest a.data →
    d = a.data) (ha : a ∈ as) (hskip : a ∉ changed st'.index as) :
    held st'.next a.path = some a.data := by
  have hmatches : I st'.next ∧ st'.index.Matches (held st'.next) := by
    subst hst'
    exact foldlRecOn (motive := fun st : Indexed σ => I st.next ∧ st.index.Matches (held st.next))
      units _ h fun _ h as has => matches_writeUnit hs (hA as has) h
  simpa [changed_eq_filter hmatches.2 hdigest, ha] using hskip

/-! ### Stages of a write -/

inductive Stage where
  | waiting
  | planned (p : Plan)
  | forwarded (p : Plan)
  | failed (p : Plan) (e : WriteError)
  | recorded (p : Plan)

namespace Stage

def plan? : Stage → Option Plan
  | waiting => none
  | planned p | forwarded p | failed p _ | recorded p => some p

def passed : Stage → List Artifact
  | forwarded p | recorded p => p.changed
  | _ => []

/-- What the index has been told. -/
def logged : Stage → List Artifact
  | recorded p => p.changed
  | _ => []

/-- What has been counted as skipped. -/
def skipped : Stage → Nat
  | recorded p => p.skipped
  | _ => 0

/-- How many steps are left at most. -/
def left : Stage → Nat
  | waiting => 3
  | planned _ => 2
  | forwarded _ => 1
  | failed .. | recorded _ => 0

def Ended (x : Stage) : Prop := x.left = 0

lemma Ended.logged_eq {x : Stage} (h : x.Ended) : x.logged = x.passed := by
  cases x with
  | forwarded p => cases h
  | _ => rfl

end Stage

/-- Writes that share a sink and its index. -/
structure Writers (σ ι : Type) where
  shared : Indexed σ
  stage : ι → Stage

variable {units : ι → List Artifact} {w w' : Writers σ ι} {st : Indexed σ}

def Writers.start (st : Indexed σ) : Writers σ ι := ⟨st, fun _ => .waiting⟩

/-- No two of the units have a path in common. -/
def Apart (units : ι → List Artifact) : Prop :=
  ∀ i j, i ≠ j → ∀ a ∈ units i, ∀ b ∈ units j, a.path ≠ b.path

/-- What a write of `as` that has passed on `new` leaves: the last artifact that was passed on for a
path is there and in the index, and the other paths of the write are as they were. -/
structure Leaves (held : σ → Holdings) (st st' : Indexed σ) (as new : List Artifact) : Prop where
  written : ∀ pre a post, new = pre ++ a :: post → (∀ b ∈ post, b.path ≠ a.path) →
    held st'.next a.path = some a.data ∧ st'.index.find? a.path = some (entry st.runId a)
  kept : ∀ a ∈ as, (∀ b ∈ new, b.path ≠ a.path) →
    held st'.next a.path = held st.next a.path ∧ st'.index.find? a.path = st.index.find? a.path

section

variable [Fintype ι]

/-- How the shared state is made up of the state at the start and the stages of the writes. A path
that belongs to one write at most has what that write left there. -/
structure Consistent (I : σ → Prop) (held : σ → Holdings) (units : ι → List Artifact)
    (st : Indexed σ) (w : Writers σ ι) : Prop where
  next : I w.shared.next
  runId : w.shared.runId = st.runId
  plans : ∀ i p, (w.stage i).plan? = some p → p = plan (units i) st
  held : ∀ i path, (∀ j, j ≠ i → ∀ a ∈ units j, a.path ≠ path) →
    held w.shared.next path = (held st.next).write (w.stage i).passed path
  index : ∀ i path, (∀ j, j ≠ i → ∀ a ∈ units j, a.path ≠ path) →
    w.shared.index.find? path = (record st.index st.runId (w.stage i).logged).find? path
  skipped : w.shared.skipped = st.skipped + ∑ i, (w.stage i).skipped

namespace Consistent

lemma start (hI : I st.next) : Consistent I held units st (Writers.start st) where
  next := hI
  runId := rfl
  plans _ _ h := nomatch h
  held _ _ _ := rfl
  index _ path _ := (find?_record st.index st.runId [] path).symm
  skipped := by simp [Writers.start, Stage.skipped]

/-- A write of its own paths plans what it would have planned at the start. -/
lemma plan_eq (h : Consistent I held units st w) (hapart : Apart units) {i : ι}
    (hi : w.stage i = .waiting) : plan (units i) w.shared = plan (units i) st := by
  have hchanged : changed w.shared.index (units i) = changed st.index (units i) := by
    refine changed_congr fun a ha => ?_
    have hfind := h.index i a.path fun j hj b hb => hapart j i hj b hb a ha
    rw [hi, find?_record] at hfind
    exact hfind
  rw [plan, hchanged, h.runId]
  rfl

lemma leaves (h : Consistent I held units st w) (hapart : Apart units) {i : ι}
    (hended : (w.stage i).Ended) (hpassed : ∀ a ∈ (w.stage i).passed, a ∈ units i) :
    Leaves held st w.shared (units i) (w.stage i).passed := by
  have hown {a : Artifact} (ha : a ∈ units i) (j : ι) (hj : j ≠ i) :
      ∀ b ∈ units j, b.path ≠ a.path :=
    fun b hb => hapart j i hj b hb a ha
  constructor
  · intro pre a post hsplit hpost
    have ha : a ∈ units i := hpassed a (by simp [hsplit])
    rw [h.held i a.path (hown ha), h.index i a.path (hown ha), hended.logged_eq,
      Holdings.write_apply, find?_record, hsplit, Artifact.last?_of_split hpost]
    exact ⟨rfl, rfl⟩
  · intro a ha hnew
    rw [h.held i a.path (hown ha), h.index i a.path (hown ha), hended.logged_eq,
      Holdings.write_apply, find?_record, Artifact.last?_eq_none_iff.2 hnew]
    exact ⟨rfl, rfl⟩

end Consistent

end

/-! ### Steps of writes -/

variable [DecidableEq ι]

/-- One of several writes does what it does next. The shared state is read and changed in one piece
where the lock is held, and the sink below is written in one piece. -/
inductive Step (s : Sink σ) (units : ι → List Artifact) : Writers σ ι → Writers σ ι → Prop where
  | plan {w : Writers σ ι} {i : ι} (h : w.stage i = .waiting) :
      Step s units w ⟨w.shared, Function.update w.stage i (.planned (plan (units i) w.shared))⟩
  | forward {w : Writers σ ι} {i : ι} {p : Plan} (h : w.stage i = .planned p) {next : σ}
      (hnext : forward s p w.shared.next = (none, next)) :
      Step s units w ⟨{ w.shared with next }, Function.update w.stage i (.forwarded p)⟩
  | fail {w : Writers σ ι} {i : ι} {p : Plan} (h : w.stage i = .planned p) {e : WriteError}
      {next : σ} (hnext : forward s p w.shared.next = (some e, next)) :
      Step s units w ⟨{ w.shared with next }, Function.update w.stage i (.failed p e)⟩
  | commit {w : Writers σ ι} {i : ι} {p : Plan} (h : w.stage i = .forwarded p) :
      Step s units w ⟨commit p w.shared, Function.update w.stage i (.recorded p)⟩

/-- Writes one after another, piece by piece, in any order. -/
abbrev Run (s : Sink σ) (units : ι → List Artifact) : Writers σ ι → Writers σ ι → Prop :=
  Relation.ReflTransGen (Step s units)

/-- A write by itself takes the steps of `writeUnit`. -/
lemma run_writeUnit {i : ι} (hi : w.stage i = .waiting) :
    Run s units w ⟨(writeUnit s (units i) w.shared).2, Function.update w.stage i
      (match (writeUnit s (units i) w.shared).1 with
        | .ok () => .recorded (plan (units i) w.shared)
        | .error e => .failed (plan (units i) w.shared) e)⟩ := by
  have hplan : Run s units w
      ⟨w.shared, Function.update w.stage i (.planned (plan (units i) w.shared))⟩ :=
    .single (.plan hi)
  unfold writeUnit
  rcases hnext : forward s (plan (units i) w.shared) w.shared.next with ⟨e | e, next⟩
  · have hforward := (hplan.tail (.forward (i := i) (Function.update_self ..) hnext)).tail
      (.commit (i := i) (Function.update_self ..))
    simpa only [hnext, Function.update_idem] using hforward
  · have hfail := hplan.tail (.fail (i := i) (Function.update_self ..) hnext)
    simpa only [hnext, Function.update_idem] using hfail

namespace Consistent

variable [Fintype ι]

/-- The write `j` gets to the stage `x` and leaves the shared state `t`. It touches no path but its
own, where it leaves what the stage says. -/
lemma advance (h : Consistent I held units st w) {j : ι} {x : Stage} {t : Indexed σ}
    (hnext : I t.next) (hrun : t.runId = w.shared.runId)
    (hplan : ∀ p, x.plan? = some p → p = plan (units j) st)
    (hheld : ∀ path, (∀ a ∈ units j, a.path ≠ path) → held t.next path = held w.shared.next path)
    (hpassed : ∀ path, held w.shared.next path = (held st.next).write (w.stage j).passed path →
    held t.next path = (held st.next).write x.passed path)
    (hindex : ∀ path, (∀ a ∈ units j, a.path ≠ path) →
    t.index.find? path = w.shared.index.find? path) (hlogged : ∀ path, w.shared.index.find? path =
    (record st.index st.runId (w.stage j).logged).find? path →
    t.index.find? path = (record st.index st.runId x.logged).find? path)
    (hskipped : t.skipped + (w.stage j).skipped = w.shared.skipped + x.skipped) :
    Consistent I held units st ⟨t, Function.update w.stage j x⟩ where
  next := hnext
  runId := hrun.trans h.runId
  plans i p hp := by
    rcases eq_or_ne i j with rfl | hij
    · exact hplan p (by simpa using hp)
    · exact h.plans i p (by simpa [hij] using hp)
  held i path hpath := by
    rcases eq_or_ne i j with rfl | hij
    · simpa using hpassed path (h.held i path hpath)
    · simpa [hij] using (hheld path (hpath j hij.symm)).trans (h.held i path hpath)
  index i path hpath := by
    rcases eq_or_ne i j with rfl | hij
    · simpa using hlogged path (h.index i path hpath)
    · simpa [hij] using (hindex path (hpath j hij.symm)).trans (h.index i path hpath)
  skipped := by
    have hsum : ∑ i, (Function.update w.stage j x i).skipped + (w.stage j).skipped
        = ∑ i, (w.stage i).skipped + x.skipped := by
      rw [← Finset.add_sum_erase _ _ (Finset.mem_univ j),
        ← Finset.add_sum_erase _ (fun i => (w.stage i).skipped) (Finset.mem_univ j)]
      have hrest : ∑ i ∈ Finset.univ.erase j, (Function.update w.stage j x i).skipped
          = ∑ i ∈ Finset.univ.erase j, (w.stage i).skipped :=
        Finset.sum_congr rfl fun i hi => by simp [Finset.ne_of_mem_erase hi]
      simp only [Function.update_self, hrest]
      omega
    have hw := h.skipped
    dsimp only
    omega

/-- A step of one write keeps the state consistent. -/
lemma step (hs : s.Transactional A I held) (hA : ∀ i, ∀ a ∈ units i, a ∈ A)
    (hapart : Apart units) (h : Consistent I held units st w) (hstep : Step s units w w') :
    Consistent I held units st w' := by
  -- a plan that was made speaks of artifacts of its write only
  have hplanned {i : ι} {p : Plan} (hp : (w.stage i).plan? = some p) :
      ∀ a ∈ p.changed, a ∈ units i := by
    obtain rfl := h.plans i p hp
    exact fun a => mem_of_mem_changed
  have huntouched {i : ι} {p : Plan} (hp : (w.stage i).plan? = some p) {path : String}
      (hpath : ∀ a ∈ units i, a.path ≠ path) : Artifact.last? p.changed path = none :=
    Artifact.last?_eq_none_iff.2 fun a ha => hpath a (hplanned hp a ha)
  cases hstep with
  | @plan i hi =>
    refine h.advance h.next rfl ?_ (fun _ _ => rfl) ?_ (fun _ _ => rfl) ?_ ?_
    · rintro p ⟨⟩
      exact h.plan_eq hapart hi
    all_goals simp [hi, Stage.passed, Stage.logged, Stage.skipped]
  | @forward i p hi next hnext =>
    have hp : (w.stage i).plan? = some p := by rw [hi]; rfl
    obtain ⟨hI, hwritten, -⟩ := forward_spec hs (fun a ha => hA i a (hplanned hp a ha)) h.next
    rw [hnext] at hI hwritten
    have hwritten := hwritten rfl
    refine h.advance hI rfl ?_ ?_ ?_ (fun _ _ => rfl) ?_ ?_
    · rintro q ⟨⟩
      exact h.plans i p hp
    · intro path hpath
      rw [hwritten, Holdings.write_apply, huntouched hp hpath]
      rfl
    · intro path hpath
      rw [hi] at hpath
      rw [hwritten, Holdings.write_apply, Holdings.write_apply, hpath]
      rfl
    all_goals simp [hi, Stage.logged, Stage.skipped]
  | @fail i p hi e next hnext =>
    have hp : (w.stage i).plan? = some p := by rw [hi]; rfl
    obtain ⟨hI, -, hkept⟩ := forward_spec hs (fun a ha => hA i a (hplanned hp a ha)) h.next
    rw [hnext] at hI hkept
    have hkept := hkept e rfl
    refine h.advance hI rfl ?_ (fun path _ => by rw [hkept]) ?_ (fun _ _ => rfl) ?_ ?_
    · rintro q ⟨⟩
      exact h.plans i p hp
    · intro path hpath
      rw [hi] at hpath
      rw [hkept, hpath]
      rfl
    all_goals simp [hi, Stage.logged, Stage.skipped]
  | @commit i p hi =>
    have hp : (w.stage i).plan? = some p := by rw [hi]; rfl
    have hrunId : p.runId = st.runId := by rw [h.plans i p hp]; rfl
    refine h.advance h.next rfl ?_ (fun _ _ => rfl) ?_ ?_ ?_ ?_
    · rintro q ⟨⟩
      exact h.plans i p hp
    · simp [hi, Stage.passed, Indexed.commit]
    · intro path hpath
      rw [Indexed.commit, find?_record, huntouched hp hpath]
      rfl
    · intro path hpath
      rw [hi, find?_record] at hpath
      rw [Indexed.commit, find?_record, hpath, hrunId]
      exact (find?_record st.index st.runId p.changed path).symm
    · simp [hi, Stage.skipped, Indexed.commit]

/-- Every moment of every run is consistent. -/
lemma run (hs : s.Transactional A I held) (hA : ∀ i, ∀ a ∈ units i, a ∈ A) (hI : I st.next)
    (hapart : Apart units) (hrun : Run s units (.start st) w) : Consistent I held units st w := by
  induction hrun with
  | refl => exact start hI
  | tail _ hstep ih => exact ih.step hs hA hapart hstep

end Consistent

end Indexed

/-! ### Memory -/

namespace Memory

variable {m : Memory} {a : Artifact} {as : List Artifact} {pathOf : String → String}

def held (m : Memory) : Holdings := fun path => (m.artifacts.find? (·.path == path)).map (·.data)

/-- Artifacts whose paths follow from their names. -/
def Named (pathOf : String → String) (as : List Artifact) : Prop := ∀ a ∈ as, a.path = pathOf a.name

lemma named_put (hm : Named pathOf m.artifacts) (ha : a.path = pathOf a.name) :
    Named pathOf (m.put a).artifacts := by
  intro b hb
  rcases mem_cons.1 hb with rfl | hb
  · exact ha
  · exact hm b (mem_of_mem_filter hb)

/-- An artifact takes the place of the one with its name, which is the one with its path. -/
lemma held_put (hm : Named pathOf m.artifacts) (ha : a.path = pathOf a.name) :
    (m.put a).held = Function.update m.held a.path (some a.data) := by
  funext path
  rcases eq_or_ne path a.path with rfl | hpath
  · simp [held, put]
  · rw [Function.update_of_ne hpath]
    simp only [held, put, find?_cons, beq_false_of_ne hpath.symm, find?_filter]
    congr 1
    refine find?_congr fun b hb => ?_
    by_cases hb' : b.path = path
    · have hname : b.name ≠ a.name := fun h => hpath (by rw [← hb', hm b hb, ha, h])
      simp [hb', hname]
    · simp [hb']

lemma foldl_put_spec (hm : Named pathOf m.artifacts) (has : Named pathOf as) :
    Named pathOf (as.foldl put m).artifacts ∧ (as.foldl put m).held = m.held.write as := by
  induction as generalizing m with
  | nil => exact ⟨hm, rfl⟩
  | cons a as ih =>
    have ha := has a mem_cons_self
    obtain ⟨hnamed, hheld⟩ := ih (named_put hm ha) fun b hb => has b (mem_cons_of_mem a hb)
    refine ⟨hnamed, hheld.trans ?_⟩
    rw [held_put hm ha]
    rfl

/-- A memory that refuses units writes the others as a whole. -/
lemma refusingUnits_transactional (paths : List String) (pathOf : String → String) :
    (refusingUnits paths).Transactional { a | a.path = pathOf a.name }
    (fun m => Named pathOf m.artifacts) held := by
  refine ⟨_, rfl, fun as m has hm => ?_⟩
  dsimp only
  split
  · exact ⟨hm, (nomatch ·), fun _ _ => rfl⟩
  · obtain ⟨hnamed, hheld⟩ := foldl_put_spec hm has
    exact ⟨hnamed, fun _ => hheld, fun _ h => nomatch h⟩

end Memory

/-! ### All runs -/

namespace Indexed

variable {σ ι : Type} [DecidableEq ι] [Fintype ι] {s : Sink σ} {A : Set Artifact} {I : σ → Prop}
  {held : σ → Holdings} {units : ι → List Artifact} {w : Writers σ ι} {st : Indexed σ}

/-- Writes at the same time through an index that has the digest of all that is there. At every
moment of every run a write has passed over the artifacts that were at their paths, one that has
succeeded leaves the others there and in the index, one that has failed leaves all as it was, and
what was passed over by the writes that have succeeded has been counted. -/
theorem concurrent_writes (hs : s.Transactional A I held) (hA : ∀ i, ∀ a ∈ units i, a ∈ A)
    (hI : I st.next) (hmatches : st.index.Matches (held st.next)) (hapart : Apart units)
    (hdigest : ∀ i, ∀ a ∈ units i, ∀ d, held st.next a.path = some d →
      Sha256.digest d = Sha256.digest a.data → d = a.data)
    (hrun : Run s units (.start st) w) :
    (∀ i p, (w.stage i).plan? = some p →
      p.changed = (units i).filter fun a => held st.next a.path ≠ some a.data) ∧
    (∀ i p, w.stage i = .recorded p → Leaves held st w.shared (units i) p.changed) ∧
    (∀ i p e, w.stage i = .failed p e → Leaves held st w.shared (units i) []) ∧
    w.shared.skipped = st.skipped + ∑ i, match w.stage i with
      | .recorded _ => ((units i).filter fun a => held st.next a.path = some a.data).length
      | _ => 0 := by
  have h := Consistent.run hs hA hI hapart hrun
  have hchanged (i : ι) := changed_eq_filter hmatches (hdigest i)
  refine ⟨fun i p hp => ?_, fun i p hi => ?_, fun i p e hi => ?_, ?_⟩
  · rw [h.plans i p hp]
    exact hchanged i
  · have hleaves := h.leaves hapart (i := i) (by rw [hi, Stage.Ended, Stage.left])
    rw [hi] at hleaves
    refine hleaves fun a ha => ?_
    rw [Stage.passed, h.plans i p (by rw [hi]; rfl)] at ha
    exact mem_of_mem_changed ha
  · have hleaves := h.leaves hapart (i := i) (by rw [hi, Stage.Ended, Stage.left])
    rw [hi] at hleaves
    exact hleaves fun a ha => nomatch ha
  · rw [h.skipped]
    congr 1
    refine Finset.sum_congr rfl fun i _ => ?_
    cases hi : w.stage i with
    | recorded p =>
        have hp : p = plan (units i) st := h.plans i p (by rw [hi]; rfl)
        have hlength := List.length_eq_length_filter_add (l := units i)
          fun a => decide (held st.next a.path = some a.data)
        simp only [Stage.skipped, hp, plan, hchanged i, ne_eq, decide_not] at hlength ⊢
        omega
    | _ => rfl

/-- Three writes: one changes an artifact and has one that is there already, one brings a new
artifact, and one is refused. -/
def threeUnits : Fin 3 → List Artifact
  | 0 => [⟨"a", "a", [1]⟩, ⟨"b", "b", [2]⟩]
  | 1 => [⟨"d", "d", [3]⟩]
  | 2 => [⟨"c", "c", [4]⟩]

/-- A memory with two artifacts and an index that has them. -/
def twoHeld : Indexed Memory :=
  let as := [⟨"a", "a", [0]⟩, ⟨"b", "b", [2]⟩]
  { next := as.foldl Memory.put {}, index := record .empty "first" as, runId := "second" }

lemma twoHeld_matches : Memory.Named id twoHeld.next.artifacts ∧
    twoHeld.index.Matches twoHeld.next.held := by
  let as : List Artifact := [⟨"a", "a", [0]⟩, ⟨"b", "b", [2]⟩]
  have hspec : Memory.Named id twoHeld.next.artifacts
      ∧ twoHeld.next.held = (Memory.held {}).write as :=
    Memory.foldl_put_spec (by simp [Memory.Named]) (by simp [Memory.Named])
  refine ⟨hspec.1, ?_⟩
  rw [hspec.2]
  exact matches_record fun _ => rfl

lemma threeUnits_digest : ∀ i, ∀ a ∈ threeUnits i, ∀ d ∈ twoHeld.next.held a.path,
    d = a.data ∨ Sha256.digest d ≠ Sha256.digest a.data := by decide +kernel

theorem concurrent_writes_interleaved : ∃ w : Writers Memory (Fin 3),
    Run (Memory.refusingUnits ["c"]) threeUnits (.start twoHeld) w ∧
    Leaves Memory.held twoHeld w.shared (threeUnits 0) [⟨"a", "a", [1]⟩] ∧
    Leaves Memory.held twoHeld w.shared (threeUnits 1) (threeUnits 1) ∧
    Leaves Memory.held twoHeld w.shared (threeUnits 2) [] ∧ w.shared.skipped = 1 := by
  have hdigest (i) (a) (ha : a ∈ threeUnits i) (d) (hd : twoHeld.next.held a.path = some d)
      (heq : Sha256.digest d = Sha256.digest a.data) : d = a.data :=
    (threeUnits_digest i a ha d hd).resolve_right (not_not.2 heq)
  have hchanged (i) := changed_eq_filter twoHeld_matches.2 (hdigest i)
  have hplan₀ : plan (threeUnits 0) twoHeld = ⟨[⟨"a", "a", [1]⟩], "second", 1⟩ :=
    by rw [plan, hchanged]; rfl
  have hplan₁ : plan (threeUnits 1) twoHeld = ⟨threeUnits 1, "second", 0⟩ :=
    by rw [plan, hchanged]; rfl
  have hplan₂ : plan (threeUnits 2) twoHeld = ⟨threeUnits 2, "second", 0⟩ :=
    by rw [plan, hchanged]; rfl
  -- all have planned before one writes, and the first to write is not the first to record
  have hplans := (((Relation.ReflTransGen.refl (r := Step (Memory.refusingUnits ["c"]) threeUnits)
    (a := .start twoHeld)).tail (.plan (i := 0) rfl)).tail (.plan (i := 1) rfl)).tail
    (.plan (i := 2) rfl)
  simp only [Writers.start, hplan₀, hplan₁, hplan₂] at hplans
  have hwrites := ((hplans.tail (.forward (i := 1) rfl rfl)).tail (.fail (i := 2) rfl rfl)).tail
    (.forward (i := 0) rfl rfl)
  have hrun := (hwrites.tail (.commit (i := 0) rfl)).tail (.commit (i := 1) rfl)
  obtain ⟨-, hrecorded, hfailed, hskipped⟩ := concurrent_writes
    (Memory.refusingUnits_transactional ["c"] id) (by decide) twoHeld_matches.1 twoHeld_matches.2
    (by unfold Apart; decide) hdigest hrun
  exact ⟨_, hrun, hrecorded 0 _ rfl, hrecorded 1 _ rfl, hfailed 2 _ _ rfl,
    hskipped.trans (by decide)⟩

end Indexed

end Classwright
