import Classwright.Decl.Builder
import Classwright.Proofs.Outcome

/-!
What building keeps.

`Builder.Accepts` says what a call that is not refused does to a builder, and `Builder.Progress`
what any call does. By induction over the calls a declaration is `Decl.WellFormed`: its fields have
distinct names, be they declared, of properties, of constants or of components, its methods differ
by name or by erased parameters, and no method has the name of an accessor. The first violation is
what building answers with, whatever calls follow it. A declaration with abstract methods is
abstract, unless its modifiers are set anew (`lawful_of_result`).
-/

namespace Classwright

open List
open Classwright.Except (bind_eq_ok_iff pure_eq_ok_iff refuse_eq_ok_iff)

/-! ### Calls -/

namespace Builder

inductive Call where
  | modifiers (ms : Modifiers)
  | superclass (t : Ty)
  | interfaces (ts : List Ty)
  | typeVar (v : TypeVar)
  | field (f : Field)
  | method (m : Method)
  | property (p : Property)
  | annotate (a : Annotation)
  | constant (name : String) (args : List Expr)
  | component (name : String) (t : Ty)
  | staticInit (stmts : List Stmt)
  | nest (d : Decl)
  | build

/-- The name of a call, as a violation gives it. -/
def Call.name : Call → String
  | .modifiers _ => "Modifiers"
  | .superclass _ => "Extends"
  | .interfaces _ => "Implements"
  | .typeVar _ => "TypeParam"
  | .field _ => "Field"
  | .method _ => "Method"
  | .property _ => "Property"
  | .annotate _ => "Annotate"
  | .constant .. => "Constant"
  | .component .. => "Component"
  | .staticInit _ => "StaticInit"
  | .nest _ => "Nest"
  | .build => "Build"

def call (b : Builder) : Call → Builder
  | .modifiers ms => b.modifiers ms
  | .superclass t => b.superclass t
  | .interfaces ts => b.interfaces ts
  | .typeVar v => b.typeVar v
  | .field f => b.field f
  | .method m => b.method m
  | .property p => b.property p
  | .annotate a => b.annotate a
  | .constant name args => b.constant name args
  | .component name t => b.component name t
  | .staticInit stmts => b.staticInit stmts
  | .nest d => b.nest d
  | .build => b.build.1

def calls (b : Builder) (cs : List Call) : Builder := cs.foldl call b

/-- What a call does that is neither refused nor the last. -/
inductive Accepts (b : Builder) : Call → Builder → Prop where
  | modifiers {ms : Modifiers} (h : ¬ (ms.has .abstract ∧ ms.has .final)) :
      Accepts b (.modifiers ms) { b with contents.modifiers := ms }
  | superclass {t : Ty} {s : ClassTy} (hkind : b.kind = .ordinary) (ht : t.erase = .cls s)
      (hs : s.kind ≠ .interface) : Accepts b (.superclass t) { b with contents.superclass := t }
  | interfaces {ts : List Ty} (h : ∀ t ∈ ts, isInterface t) :
      Accepts b (.interfaces ts) { b with contents.interfaces := b.contents.interfaces ++ ts }
  | typeVar {v : TypeVar} (hname : checkIdentifier v.name = .ok ())
      (hnew : v.name ∉ b.contents.typeVars.map (·.name)) :
      Accepts b (.typeVar v) { b with contents.typeVars := b.contents.typeVars ++ [v] }
  | field {f g : Field} (hty : ¬ f.ty.isVoid) (hstatic : b.kind = .record → f.modifiers.has .static)
      (hclaim : b.claim f.name = .ok ()) (hname : g.name = f.name) :
      Accepts b (.field f) { b with contents.fields := b.contents.fields ++ [g] }
  | method {m n : Method} (hctor : b.kind = .interface → ¬ n.isConstructor)
      (hcheck : n.check = .ok ())
      (habstract : n.isAbstract → b.kind ≠ .interface → b.contents.modifiers.has .abstract)
      (hnew : methodKey n ∉ b.contents.methods.map methodKey) :
      Accepts b (.method m) { b with contents.methods := b.contents.methods ++ [n] }
  | property {p : Property} (hty : ¬ p.ty.isVoid) (hkind : b.kind ≠ .enumeration ∧ b.kind ≠ .record)
      (hclaim : b.claim p.name = .ok ()) :
      Accepts b (.property p) { b with contents.properties := b.contents.properties ++ [p] }
  | annotate {a : Annotation} (h : checkTypeName a.ty.name = .ok ()) :
      Accepts b (.annotate a) { b with contents.annotations := b.contents.annotations ++ [a] }
  | constant {name : String} {args : List Expr} (hkind : b.kind = .enumeration)
      (hclaim : b.claim name = .ok ()) :
      Accepts b (.constant name args)
        { b with contents.constants := b.contents.constants ++ [⟨name, args⟩] }
  | component {name : String} {t : Ty} (hkind : b.kind = .record) (hty : ¬ t.isVoid)
      (hclaim : b.claim name = .ok ()) :
      Accepts b (.component name t)
        { b with contents.components := b.contents.components ++ [⟨name, t, []⟩] }
  | staticInit {stmts : List Stmt} (h : ¬ b.initialized) :
      Accepts b (.staticInit stmts) { b with initialized := true, contents.staticInit := stmts }
  | nest {d : Decl} {simple : String} (hname : memberName? b.contents.name d.name = some simple)
      (hnew : d.name ∉ b.nested.map Decl.name) :
      Accepts b (.nest d) { b with nested := b.nested ++ [d] }

/-- What a call does: nothing after a violation, or it is refused, or it is accepted, or it is the
one that finishes the declaration. -/
inductive Progress (b : Builder) : Call → Builder → Prop where
  | idle {c : Call} (h : b.error ≠ none ∨ c = .build ∧ b.built ≠ none) : Progress b c b
  | refused {c : Call} (he : b.error = none) (v : Violation) :
      Progress b c { b with error := some ⟨b.contents.name, c.name, v⟩ }
  | accepted {c : Call} {b' : Builder} (he : b.error = none) (hb : b.built = none)
      (h : b.Accepts c b') : Progress b c b'
  | built (he : b.error = none) (hb : b.built = none)
      (hconst : b.kind = .enumeration → b.contents.constants ≠ [])
      (hclash : accessorClash? b.contents = none) :
      Progress b .build { b with built := some (.mk b.contents b.nested) }

variable {b b' : Builder} {c : Call} {name : String}

lemma requireName_eq_ok_iff {u : Unit} : requireName name = .ok u ↔ checkIdentifier name = .ok u :=
  Except.mapError_eq_ok_iff

lemma interfaceMethod_name (m : Method) : (interfaceMethod m).name = m.name := by
  unfold interfaceMethod
  dsimp only
  split <;> split <;> rfl

/-- A checked call, from what it does where it is not refused. -/
lemma progress_step {f : Builder → Except Violation Builder}
    (h : ∀ b', f b = .ok b' → b.Accepts c b') : b.Progress c (b.step c.name f) := by
  obtain ⟨contents, nested, initialized, error, built⟩ := b
  rcases error with - | e
  · rcases built with - | d
    · unfold step
      dsimp only
      rcases hf : f ⟨contents, nested, initialized, none, none⟩ with v | b'
      · exact .refused rfl _
      · exact .accepted rfl rfl (h b' hf)
    · exact .refused rfl _
  · exact .idle (.inl (by simp))

lemma progress_build : b.Progress .build b.build.1 := by
  obtain ⟨contents, nested, initialized, error, built⟩ := b
  rcases error with - | e
  · rcases built with - | d
    · unfold build
      dsimp only
      split
      · exact .refused rfl _
      · rename_i hconst
        rcases hclash : accessorClash? contents with - | v
        · exact .built rfl rfl (by simpa using hconst) hclash
        · exact .refused rfl _
    · exact .idle (.inr ⟨rfl, by simp⟩)
  · exact .idle (.inl (by simp))

/-- Every call makes progress in one of the four ways. -/
lemma progress_call (b : Builder) (c : Call) : b.Progress c (b.call c) := by
  cases c
  case build => exact progress_build
  all_goals
    rw [call]
    refine progress_step fun b' h => ?_
  case modifiers ms =>
    obtain ⟨hms, h⟩ := refuse_eq_ok_iff.1 h
    obtain rfl := pure_eq_ok_iff.1 h
    exact .modifiers (by simpa using hms)
  case superclass t =>
    obtain ⟨hkind, h⟩ := refuse_eq_ok_iff.1 h
    rcases ht : t.erase with p | s | ⟨of, dims⟩ <;> simp only [ht] at h
    · exact absurd h Except.throw_ne_ok
    · obtain ⟨hs, h⟩ := refuse_eq_ok_iff.1 h
      obtain rfl := pure_eq_ok_iff.1 h
      exact .superclass (not_not.1 hkind) ht hs
    · exact absurd h Except.throw_ne_ok
  case interfaces ts =>
    rcases hts : ts.find? (!isInterface ·) with - | t <;> simp only [hts] at h
    · obtain rfl := pure_eq_ok_iff.1 h
      exact .interfaces (by simpa using hts)
    · exact absurd h Except.throw_ne_ok
  case typeVar v =>
    obtain ⟨⟨⟩, hname, h⟩ := bind_eq_ok_iff.1 h
    obtain ⟨hnew, h⟩ := refuse_eq_ok_iff.1 h
    obtain rfl := pure_eq_ok_iff.1 h
    exact .typeVar (requireName_eq_ok_iff.1 hname) (by simpa using hnew)
  case field f =>
    obtain ⟨hty, h⟩ := refuse_eq_ok_iff.1 h
    obtain ⟨hstatic, h⟩ := refuse_eq_ok_iff.1 h
    obtain ⟨⟨⟩, hclaim, h⟩ := bind_eq_ok_iff.1 h
    obtain rfl := pure_eq_ok_iff.1 h
    exact .field hty (by simpa using hstatic) hclaim (by split <;> rfl)
  case method m =>
    obtain ⟨hctor, h⟩ := refuse_eq_ok_iff.1 h
    obtain ⟨⟨⟩, hcheck, h⟩ := bind_eq_ok_iff.1 h
    obtain ⟨habstract, h⟩ := refuse_eq_ok_iff.1 h
    obtain ⟨hnew, h⟩ := refuse_eq_ok_iff.1 h
    obtain rfl := pure_eq_ok_iff.1 h
    refine .method (fun hkind => ?_) hcheck (by simpa using habstract) (by simpa using hnew)
    rw [if_pos hkind, Method.isConstructor, interfaceMethod_name]
    simpa [hkind, Method.isConstructor] using hctor
  case property p =>
    obtain ⟨hty, h⟩ := refuse_eq_ok_iff.1 h
    obtain ⟨hkind, h⟩ := refuse_eq_ok_iff.1 h
    obtain ⟨⟨⟩, hclaim, h⟩ := bind_eq_ok_iff.1 h
    obtain rfl := pure_eq_ok_iff.1 h
    exact .property hty (by simpa using hkind) hclaim
  case annotate a =>
    obtain ⟨⟨⟩, hname, h⟩ := bind_eq_ok_iff.1 h
    obtain rfl := pure_eq_ok_iff.1 h
    exact .annotate (Except.mapError_eq_ok_iff.1 hname)
  case constant name args =>
    obtain ⟨hkind, h⟩ := refuse_eq_ok_iff.1 h
    obtain ⟨⟨⟩, hclaim, h⟩ := bind_eq_ok_iff.1 h
    obtain rfl := pure_eq_ok_iff.1 h
    exact .constant (not_not.1 hkind) hclaim
  case component name t =>
    obtain ⟨hkind, h⟩ := refuse_eq_ok_iff.1 h
    obtain ⟨hty, h⟩ := refuse_eq_ok_iff.1 h
    obtain ⟨⟨⟩, hclaim, h⟩ := bind_eq_ok_iff.1 h
    obtain rfl := pure_eq_ok_iff.1 h
    exact .component (not_not.1 hkind) hty hclaim
  case staticInit stmts =>
    obtain ⟨hinit, h⟩ := refuse_eq_ok_iff.1 h
    obtain rfl := pure_eq_ok_iff.1 h
    exact .staticInit hinit
  case nest d =>
    rcases hname : memberName? b.contents.name d.name with - | simple <;> simp only [hname] at h
    · exact absurd h Except.throw_ne_ok
    · obtain ⟨hnew, h⟩ := refuse_eq_ok_iff.1 h
      obtain rfl := pure_eq_ok_iff.1 h
      exact .nest hname (by simpa using hnew)

end Builder

/-! ### Names -/

namespace Contents

def fieldNames (c : Contents) : List String :=
  c.constants.map (·.name) ++ c.fields.map (·.name) ++ c.properties.map (·.name)
    ++ c.components.map (·.name)

/-- Members that were added one by one, each after its checks. -/
structure WellFormed (c : Contents) : Prop where
  fieldNames_nodup : c.fieldNames.Nodup
  fieldNames_valid : ∀ n ∈ c.fieldNames, checkIdentifier n = .ok ()
  methods_nodup : (c.methods.map Builder.methodKey).Nodup
  methods_check : ∀ m ∈ c.methods, m.check = .ok ()
  typeVars_nodup : (c.typeVars.map (·.name)).Nodup
  constants_kind : c.constants ≠ [] → c.kind = .enumeration
  properties_kind : c.properties ≠ [] → c.kind ≠ .enumeration ∧ c.kind ≠ .record
  components_kind : c.components ≠ [] → c.kind = .record

/-- A declaration with an abstract method is an interface or abstract itself. -/
def Lawful (c : Contents) : Prop :=
  c.kind ≠ .interface → (∃ m ∈ c.methods, m.isAbstract) → c.modifiers.has .abstract

/-- Members of a declaration that was finished. -/
structure Finished (c : Contents) : Prop extends c.WellFormed where
  constants_ne_nil : c.kind = .enumeration → c.constants ≠ []
  accessors_free : ∀ p ∈ c.properties, ∀ a ∈ Builder.accessors c.kind p, ∀ m ∈ c.methods, m.name ≠ a

end Contents

/-- A finished declaration whose member types are finished and have distinct names. -/
inductive Decl.WellFormed : Decl → Prop where
  | mk {c : Contents} {ds : List Decl} (contents : c.Finished) (names : (ds.map Decl.name).Nodup)
      (members : ∀ d ∈ ds, Builder.memberName? c.name d.name ≠ none)
      (nested : ∀ d ∈ ds, d.WellFormed) : WellFormed (.mk c ds)

namespace Builder

variable {b b' : Builder} {c : Call} {name : String}

lemma start_eq (kind : ClassKind) (name : String) :
    (start kind name).contents = { ty := ⟨name, kind, false⟩ } ∧ (start kind name).nested = [] ∧
    (start kind name).built = none := by
  unfold start step
  cases checkTypeName name <;> exact ⟨rfl, rfl, rfl⟩

lemma claimedBy?_eq_none_iff {c : Contents} : claimedBy? c name = none ↔ name ∉ c.fieldNames := by
  simp only [claimedBy?, Contents.fieldNames]
  split_ifs <;> simp_all

lemma claim_eq_ok_iff {u : Unit} :
    b.claim name = .ok u ↔ checkIdentifier name = .ok () ∧ name ∉ b.contents.fieldNames := by
  rw [claim, bind_eq_ok_iff, ← claimedBy?_eq_none_iff]
  simp only [requireName_eq_ok_iff]
  cases claimedBy? b.contents name with
  | none => exact ⟨fun ⟨_, h, _⟩ => ⟨h, rfl⟩, fun ⟨h, _⟩ => ⟨_, h, rfl⟩⟩
  | some call => simp

end Builder

/-! ### Steps -/

namespace Contents.WellFormed

variable {c c' : Contents} {b b' : Builder} {name : String}

/-- One more field under a name that was claimed, wherever it stands. -/
lemma claimed (h : b.contents.WellFormed) (hclaim : b.claim name = .ok ())
    (hcount : ∀ n, c.fieldNames.count n = (name :: b.contents.fieldNames).count n) :
    c.fieldNames.Nodup ∧ ∀ n ∈ c.fieldNames, checkIdentifier n = .ok () := by
  have hperm : c.fieldNames.Perm (name :: b.contents.fieldNames) := perm_iff_count.2 hcount
  obtain ⟨hvalid, hnew⟩ := Builder.claim_eq_ok_iff.1 hclaim
  refine ⟨hperm.nodup_iff.2 (nodup_cons.2 ⟨hnew, h.fieldNames_nodup⟩), fun n hn => ?_⟩
  rcases mem_cons.1 (hperm.mem_iff.1 hn) with rfl | hn
  · exact hvalid
  · exact h.fieldNames_valid n hn

lemma start (kind : ClassKind) (name : String) : (Builder.start kind name).contents.WellFormed := by
  rw [(Builder.start_eq kind name).1]
  constructor <;> simp [fieldNames]

/-- What an accepted call leaves is well formed. -/
lemma accepts (h : b.contents.WellFormed) {call : Builder.Call} (hcall : b.Accepts call b') :
    b'.contents.WellFormed := by
  cases hcall with
  | modifiers | superclass | interfaces | annotate | staticInit | nest => exact { h with }
  | typeVar hname hnew =>
    refine { h with typeVars_nodup := ?_ }
    rw [map_append]
    exact h.typeVars_nodup.append (nodup_singleton _) (by simpa using hnew)
  | @field f g hty hstatic hclaim hname =>
    obtain ⟨hnodup, hvalid⟩ := h.claimed hclaim
      (c := { b.contents with fields := b.contents.fields ++ [g] })
      fun n => by grind [fieldNames]
    exact { h with fieldNames_nodup := hnodup, fieldNames_valid := hvalid }
  | method hctor hcheck habstract hnew =>
    refine { h with methods_nodup := ?_, methods_check := ?_ }
    · rw [map_append]
      exact h.methods_nodup.append (nodup_singleton _) (by simpa using hnew)
    · simpa [or_imp, forall_and] using ⟨h.methods_check, hcheck⟩
  | @property p hty hkind hclaim =>
    obtain ⟨hnodup, hvalid⟩ := h.claimed hclaim
      (c := { b.contents with properties := b.contents.properties ++ [p] })
      fun n => by grind [fieldNames]
    exact { h with
      fieldNames_nodup := hnodup
      fieldNames_valid := hvalid
      properties_kind := fun _ => hkind }
  | @constant name args hkind hclaim =>
    obtain ⟨hnodup, hvalid⟩ := h.claimed hclaim
      (c := { b.contents with constants := b.contents.constants ++ [⟨name, args⟩] })
      fun n => by grind [fieldNames]
    exact { h with
      fieldNames_nodup := hnodup
      fieldNames_valid := hvalid
      constants_kind := fun _ => hkind }
  | @component name t hkind hty hclaim =>
    obtain ⟨hnodup, hvalid⟩ := h.claimed hclaim
      (c := { b.contents with components := b.contents.components ++ [⟨name, t, []⟩] })
      fun n => by grind [fieldNames]
    exact { h with
      fieldNames_nodup := hnodup
      fieldNames_valid := hvalid
      components_kind := fun _ => hkind }

end Contents.WellFormed

/-- No accessor has the name of a method where building finds none. -/
lemma Builder.accessorClash?_eq_none_iff {c : Contents} : accessorClash? c = none ↔
    ∀ p ∈ c.properties, ∀ a ∈ accessors c.kind p, ∀ m ∈ c.methods, m.name ≠ a := by
  simp [accessorClash?, findSome?_eq_none_iff]

namespace Builder

variable {b b' : Builder} {c : Call}

/-! ### Runs -/

/-- What holds of a builder after any calls, if all types that were nested are well formed. -/
structure Sound (b : Builder) : Prop where
  contents : b.contents.WellFormed
  names : (b.nested.map Decl.name).Nodup
  members : ∀ d ∈ b.nested, memberName? b.contents.name d.name ≠ none
  nested : ∀ d ∈ b.nested, d.WellFormed
  built : ∀ d, b.built = some d → d.WellFormed

lemma sound_start (kind : ClassKind) (name : String) : (start kind name).Sound := by
  constructor
  · exact .start kind name
  all_goals simp [start_eq kind name]

/-- An accepted call keeps the name of the declaration, and neither fails nor finishes it. -/
lemma Accepts.kept (h : b.Accepts c b') :
    b'.contents.name = b.contents.name ∧ b'.error = b.error ∧ b'.built = b.built := by
  cases h <;> exact ⟨rfl, rfl, rfl⟩

lemma Sound.accepts (hb : b.Sound) (hnest : ∀ d, c = .nest d → d.WellFormed) (h : b.Accepts c b') :
    b'.Sound := by
  have hcontents := hb.contents.accepts h
  cases h with
  | @nest d simple hname hnew =>
    refine { hb with contents := hcontents, names := ?_, members := ?_, nested := ?_ }
    · rw [map_append]
      exact hb.names.append (nodup_singleton _) (by simpa using hnew)
    · simpa [or_imp, forall_and, hname] using hb.members
    · simpa [or_imp, forall_and] using ⟨hb.nested, hnest d rfl⟩
  | _ => exact { hb with contents := hcontents }

lemma Sound.call (hb : b.Sound) (hnest : ∀ d, c = .nest d → d.WellFormed) : (b.call c).Sound := by
  have hprogress := b.progress_call c
  generalize b.call c = b' at hprogress
  cases hprogress with
  | idle _ => exact hb
  | refused _ e => exact { hb with }
  | accepted _ _ h => exact hb.accepts hnest h
  | built _ _ hconst hclash =>
    have hfinished : b.contents.Finished :=
      { hb.contents with
        constants_ne_nil := hconst
        accessors_free := accessorClash?_eq_none_iff.1 hclash }
    refine { hb with built := ?_ }
    rintro d ⟨⟩
    exact .mk hfinished hb.names hb.members hb.nested

lemma Sound.calls {cs : List Call} (hb : b.Sound) (hnest : ∀ d, .nest d ∈ cs → d.WellFormed) :
    (b.calls cs).Sound :=
  foldlRecOn cs Builder.call hb fun _ hb _ hc => hb.call fun d hd => hnest d (hd ▸ hc)

/-- What a builder answers with is what it has built. -/
lemma built_of_result {d : Decl} (h : b.result = .ok d) : (b.call .build).built = some d := by
  obtain ⟨contents, nested, initialized, error, built⟩ := b
  rcases error with - | e
  · rcases built with - | d'
    · simp only [result, call, build] at h ⊢
      split at h
      · simp at h
      · rename_i hconst
        rw [if_neg hconst]
        rcases hclash : accessorClash? contents with - | v <;> simp_all
    · simpa [result, call, build] using h
  · simp [result, build] at h

/-- Whatever calls were made in whatever order, what is built is well formed if the member types
are. -/
theorem wellFormed_of_result {kind : ClassKind} {name : String} {cs : List Call} {d : Decl}
    (hnest : ∀ e, .nest e ∈ cs → e.WellFormed) (h : ((start kind name).calls cs).result = .ok d) :
    d.WellFormed :=
  (((sound_start kind name).calls hnest).call (by simp)).built d (built_of_result h)

/-! ### Abstract methods -/

/-- Members that keep the law, as they are and as they were built. -/
structure Lawful (b : Builder) : Prop where
  contents : b.contents.Lawful
  built : ∀ d, b.built = some d → d.contents.Lawful

lemma Accepts.lawful (h : b.Accepts c b') (hmods : ∀ ms, c = .modifiers ms → ms.has .abstract)
    (hb : b.contents.Lawful) : b'.contents.Lawful := by
  cases h with
  | modifiers _ => exact fun _ _ => hmods _ rfl
  | method _ _ habstract _ =>
    rintro hkind ⟨m, hm, habs⟩
    rcases mem_append.1 hm with hm | hm
    · exact hb hkind ⟨m, hm, habs⟩
    · obtain rfl := mem_singleton.1 hm
      exact habstract habs hkind
  | _ => exact hb

lemma Lawful.call (hb : b.Lawful) (hmods : ∀ ms, c = .modifiers ms → ms.has .abstract) :
    (b.call c).Lawful := by
  have hprogress := b.progress_call c
  generalize b.call c = b' at hprogress
  cases hprogress with
  | idle _ => exact hb
  | refused _ _ => exact { hb with }
  | accepted _ hbuilt h => exact ⟨h.lawful hmods hb.contents, by simp [h.kept.2.2, hbuilt]⟩
  | built =>
    refine { hb with built := ?_ }
    rintro d ⟨⟩
    exact hb.contents

/-- A method is checked against the modifiers that the declaration has when it is added. So a
declaration with an abstract method is abstract, unless modifiers without `abstract` are set, which
may be after it was added. -/
theorem lawful_of_result {kind : ClassKind} {name : String} {cs : List Call} {d : Decl}
    (hmods : ∀ ms, .modifiers ms ∈ cs → ms.has .abstract)
    (h : ((start kind name).calls cs).result = .ok d) : d.contents.Lawful := by
  have hstart : (start kind name).Lawful := by
    constructor <;> simp [start_eq kind name, Contents.Lawful]
  have hcalls : ((start kind name).calls cs).Lawful :=
    foldlRecOn cs Builder.call hstart fun _ hb _ hc => hb.call fun ms hms => hmods ms (hms ▸ hc)
  exact (hcalls.call (by simp)).built d (built_of_result h)

/-! ### The first violation -/

variable {cs : List Call} {d : Decl} {e : BuildError}

lemma calls_append (b : Builder) (cs ds : List Call) : b.calls (cs ++ ds) = (b.calls cs).calls ds :=
  foldl_append

/-- After a violation a call does nothing. -/
lemma call_eq_self (h : b.error = some e) (c : Call) : b.call c = b := by
  have hprogress := b.progress_call c
  generalize b.call c = b' at hprogress
  cases hprogress with
  | idle _ => rfl
  | refused he _ | accepted he | built he => simp [he] at h

lemma calls_eq_self (h : b.error = some e) (cs : List Call) : b.calls cs = b := by
  refine foldlRecOn (motive := (· = b)) cs call rfl fun b' hb' c _ => ?_
  rw [hb', call_eq_self h]

lemma built_call (h : b.built = some d) (c : Call) : (b.call c).built = some d := by
  have hprogress := b.progress_call c
  generalize b.call c = b' at hprogress
  cases hprogress with
  | idle _ | refused _ _ => exact h
  | accepted _ hb | built _ hb => simp [hb] at h

/-- No call changes what was built. -/
theorem built_calls (h : b.built = some d) (cs : List Call) : (b.calls cs).built = some d :=
  foldlRecOn (motive := (·.built = some d)) cs call h fun _ h c _ => built_call h c

/-- The answer is the violation that the last call leaves, if there is one. -/
lemma result_eq_error : b.result = .error e ↔ (b.call .build).error = some e := by
  obtain ⟨contents, nested, initialized, error, built⟩ := b
  rcases error with - | e'
  · rcases built with - | d'
    · simp only [result, call, build]
      split
      · simp
      · rcases accessorClash? contents with - | v <;> simp
    · simp [result, call, build]
  · simp [result, call, build]

/-- A violation is found by one call, with none before it. -/
lemma exists_violation (hb : b.error = none) (h : (b.calls cs).error = some e) :
    ∃ pre c post, cs = pre ++ c :: post ∧ (b.calls pre).error = none ∧
    ((b.calls pre).call c).error = some e := by
  induction cs generalizing b with
  | nil => simp [calls, hb] at h
  | cons c cs ih =>
    rcases hc : (b.call c).error with - | e'
    · obtain ⟨pre, c', post, rfl, hpre, hc'⟩ := ih hc h
      exact ⟨c :: pre, c', post, rfl, hpre, hc'⟩
    · refine ⟨[], c, cs, rfl, hb, ?_⟩
      have hcalls : b.calls (c :: cs) = b.call c := calls_eq_self hc cs
      rwa [hcalls] at h

/-- Building fails with the violation of the first call that is one, the building included, whatever
follows it. -/
theorem result_eq_error_iff (hb : b.error = none) : (b.calls cs).result = .error e ↔
    ∃ pre c post, cs ++ [.build] = pre ++ c :: post ∧ (b.calls pre).error = none
      ∧ ((b.calls pre).call c).error = some e := by
  have hlast : (b.calls cs).call .build = b.calls (cs ++ [.build]) := by simp [calls]
  rw [result_eq_error, hlast]
  refine ⟨exists_violation hb, ?_⟩
  rintro ⟨pre, c, post, heq, -, hc⟩
  rw [heq, calls_append]
  exact (congrArg Builder.error (calls_eq_self hc post)).trans hc

end Builder

end Classwright
