import Classwright.Proofs.Frame.Vocabulary

/-!
The classes that frames name.

A method names finitely many classes (`MethodCode.names`): its own, those in its pool and in the
descriptors of members, those of its parameters and a few that instructions have built in.
Instructions bring no others into a frame but the elements of arrays (`Insn.transfer_within`).
-/

namespace Classwright

/-! ### Frames with classes of one kind -/

/-- All objects in a frame are of classes of `N`. -/
structure Frame.Within (N : String → Prop) (f : Frame) : Prop where
  locals : ∀ n, (slotType f.locals n).Within N
  stack : ∀ v ∈ f.stack, v.Within N

/-- Instructions name no classes but those of the method. -/
lemma Insn.transfer_within {N : String → Prop} {c : CodeContext} {i : Insn} {f g : Frame}
    (hN : c.method.NamedBy N) (hf : f.Within N) (hg : i.transfer c f = .ok g) : g.Within N := by
  have hsim : Effect.Sim False (Linked (fun _ => True) (VType.Named N) (VType.Named N))
      (Linked (fun _ => True) (VType.Named N) (VType.Named N)) Eq (i.effect c) (i.effect c) :=
    effect_sim (linking_named N) hN (fun _ _ => rfl) i ⟨rfl, nofun⟩ fun _ _ hy => hy.1.symm
  have hstack : List.Forall₂ (VType.Named N) f.stack f.stack :=
    List.forall₂_same.2 fun v hv => ⟨rfl, hf.stack v hv⟩
  obtain ⟨_, g', -, -, hg'⟩ := hsim ⟨⟨hstack, fun n => ⟨rfl, hf.locals n⟩⟩, trivial⟩ nofun
    (transfer_eq_ok_iff.1 hg)
  refine ⟨fun n => (hg'.locals n).2, fun v hv => ?_⟩
  obtain ⟨u, -, huv⟩ := exists_of_forall₂_right hg'.stack hv
  exact huv.2

/-! ### The classes of a method -/

/-- The classes that field descriptors name. -/
def describedClasses (descs : List String) : List String :=
  descs.filterMap fun d => (VType.ofDescriptor d).toOption.bind VType.class?

lemma mem_describedClasses {descs : List String} {d c : String} (hd : d ∈ descs)
    (hc : VType.ofDescriptor d = .ok (.ref c)) : c ∈ describedClasses descs :=
  List.mem_filterMap.2 ⟨d, hd, by simp [hc, Except.toOption, VType.class?]⟩

/-- The classes that the constant at an index names: itself and its arrays, or the type of a field
or result. -/
def Pool.namesAt (p : Pool) (i : UInt16) : List String :=
  (p.classAt i).toOption.elim [] (fun name => [name, Hierarchy.arrayOf name]) ++
    (p.memberAt i).toOption.elim [] fun r =>
      describedClasses (r.desc :: (Descriptor.parse r.desc).toOption.elim [] fun sig => [sig.2])

/-- The classes that a method can bring into a frame, elements of arrays apart. -/
def MethodCode.names (m : MethodCode) : List String :=
  [m.owner, "java/lang/String", "java/lang/Class", throwableClass] ++
    ["[Z", "[C", "[F", "[D", "[B", "[S", "[I", "[J"] ++
    (List.range 65536).flatMap (fun n => m.pool.namesAt (UInt16.ofNat n)) ++
    (Descriptor.parse m.desc).toOption.elim [] fun sig => describedClasses sig.1

namespace MethodCode

variable {m : MethodCode} {h : Hierarchy}

lemma mem_names_of_namesAt {i : UInt16} {c : String} (hc : c ∈ m.pool.namesAt i) : c ∈ m.names := by
  refine List.mem_append_left _ (List.mem_append_right _ (List.mem_flatMap.2 ⟨i.toNat, ?_, ?_⟩))
  · exact List.mem_range.2 i.toNat_lt
  · rwa [UInt16.ofNat_toNat]

/-- Frames of a method are within what can be made from its classes. -/
lemma namedBy_derives (m : MethodCode) (h : Hierarchy) : m.NamedBy (h.Derives m.names) where
  owner := .given (by simp [names])
  string := .given (by simp [names])
  class_ := .given (by simp [names])
  throwable := .given (by simp [names])
  primitive n desc hdesc := by
    refine .given ?_
    unfold Insn.primitiveArray? at hdesc
    split at hdesc
    case h_9 => cases hdesc
    all_goals
      obtain rfl := Option.some.inj hdesc
      simp [names]
  pool i name hname := by
    have hmem : name ∈ m.pool.namesAt i ∧ Hierarchy.arrayOf name ∈ m.pool.namesAt i := by
      simp [Pool.namesAt, hname, Except.toOption]
    exact ⟨.given (mem_names_of_namesAt hmem.1), .given (mem_names_of_namesAt hmem.2)⟩
  member i r desc v hr hdesc hv := by
    rintro c rfl
    refine .given (mem_names_of_namesAt (i := i) (List.mem_append_right _ ?_))
    rw [hr]
    refine mem_describedClasses ?_ hv
    rcases hdesc with rfl | ⟨sig, hsig, rfl⟩
    · exact List.mem_cons_self
    · simp [hsig, Except.toOption]
  params sig hsig p hp v hv := by
    rintro c rfl
    refine .given (List.mem_append_right _ ?_)
    rw [hsig]
    exact mem_describedClasses hp hv
  element a e ha he := ha.element he

end MethodCode

end Classwright
