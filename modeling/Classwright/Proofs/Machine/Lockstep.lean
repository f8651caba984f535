import Classwright.Proofs.Machine.Agreement

/-!
Code that runs in step with what an analysis leaves of it.

Platform methods and instructions agree with themselves if the methods they call do
(`Agree.runPlatform`, `Op.Agree.step`). A run is a sequence of rounds, each of which executes one
instruction and finds the handler if it throws (`round`). Code is `Mirrored` by other code if both
are the same at the offsets of a set that control does not leave, as is the case with code and what
an analysis leaves of it (`Enclosure.mirrored`). One round in both then goes on to the same offset
(`Mirrored.round`), and all rounds, with the calls on the way, come to the same end: `run_agree`.
-/

namespace Classwright.Machine

namespace Agree

variable {inv inv' : Invoke}

/-! ### Platform methods -/

lemma arg (args : List Value) (i : Nat) : Stable (arg args i) := sure _

/-- A value of another type stops the machine, whatever the state. -/
lemma toInt (v : Value) : Stable (toInt v) := by
  cases v <;> first | exact .pure rfl | exact .crash

lemma toLong (v : Value) : Stable (toLong v) := by
  cases v <;> first | exact .pure rfl | exact .crash

lemma toFloat (v : Value) : Stable (toFloat v) := by
  cases v <;> first | exact .pure rfl | exact .crash

lemma toDouble (v : Value) : Stable (toDouble v) := by
  cases v <;> first | exact .pure rfl | exact .crash

lemma toText (v : Value) : Stable (toText v) := by
  cases v <;> first | exact .pure rfl | exact .crash

/-- The contents of an object are read off the heap. -/
lemma toObject (v : Value) : Stable (toObject v) := by
  cases v with
  | obj id => exact (getObject id).map
  | _ => exact .crash

lemma toArray (v : Value) : Stable (toArray v) := by
  cases v with
  | arr id => exact getArray id
  | _ => exact .crash

lemma boxedValue (v : Value) : Stable (boxedValue v) := by
  refine (toObject v).seq fun o => ?_
  cases o.2.native with
  | value v => exact .pure rfl
  | _ => exact .crash

/-- Objects are asked for their text, which is a call. -/
lemma textOf (h : inv.Agree inv') (v : Value) : Agree Eq (textOf inv v) (textOf inv' v) := by
  unfold Machine.textOf
  split
  · exact .pure rfl
  · exact .pure rfl
  · refine (callVirtual h _ _ _ _).seq fun s => ?_
    split
    · exact .pure rfl
    · exact .toText _

lemma format (h : inv.Agree inv') (v : Value) (letter : Char) :
    Agree Eq (format inv v letter) (format inv' v letter) := by
  unfold Machine.format
  split
  · exact (toInt v).map
  · exact (toInt v).map
  · exact (toInt v).map
  · exact (toLong v).map
  · exact (toInt v).map
  · exact (toInt v).map
  · exact (toFloat v).map
  · exact (toDouble v).map
  · exact textOf h v

lemma primitiveHash (v : Value) (letter : Char) : Stable (primitiveHash v letter) := by
  refine .ite (toInt v).map ?_
  cases v <;> exact .pure rfl

/-- Numbers with a fraction are compared by their patterns. -/
lemma boxedEqual (a b : Value) : Stable (boxedEqual a b) := by
  cases a with
  | float x => exact (toFloat b).map
  | double x => exact (toDouble b).map
  | _ => exact .pure rfl

lemma valuesEqual (h : inv.Agree inv') (a b : Value) :
    Agree Eq (valuesEqual inv a b) (valuesEqual inv' a b) :=
  .ite (.pure rfl) (.ite (.pure rfl) ((callVirtual h _ _ _ _).map))

lemma hashOf (h : inv.Agree inv') (v : Value) : Agree Eq (hashOf inv v) (hashOf inv' v) :=
  .ite (.pure rfl) (callVirtual h _ _ _ _)

/-- Lists are compared up to the first difference. -/
lemma allEqual {eq eq' : Value → Value → Exec Bool} (h : ∀ x y, Agree Eq (eq x y) (eq' x y))
    (xs ys : List Value) : Agree Eq (allEqual eq xs ys) (allEqual eq' xs ys) := by
  fun_induction Machine.allEqual eq xs ys with
  | case1 x xs y ys ih =>
    refine (h x y).seq fun b => ?_
    cases b with
    | true => exact ih
    | false => exact .pure rfl
  | case2 xs ys hne =>
    rw [Machine.allEqual.eq_2 _ _ _ hne]
    exact .pure rfl

/-- By induction on the depth to which arrays are compared. -/
lemma arraysEqualUpTo (h : inv.Agree inv') (deep : Bool) (n : Nat) (a b : Value) :
    Agree Eq (arraysEqualUpTo inv deep n a b) (arraysEqualUpTo inv' deep n a b) := by
  induction n generalizing a b with
  | zero => exact .throw _
  | succ n ih =>
    refine .ite (.pure rfl) ((toArray a).seq fun x => (toArray b).seq fun y =>
      .ite (.pure rfl) (allEqual (fun ex ey => ?_) _ _))
    exact (sure _).seq fun c => .ite (boxedEqual ex ey) (.ite (ih ex ey) (valuesEqual h ex ey))

/-- By induction on the same depth. -/
lemma arrayHashUpTo (h : inv.Agree inv') (deep : Bool) (n : Nat) (v : Value) :
    Agree Eq (arrayHashUpTo inv deep n v) (arrayHashUpTo inv' deep n v) := by
  induction n generalizing v with
  | zero => exact .throw _
  | succ n ih =>
    refine .ite (.pure rfl) ((toArray v).seq fun a =>
      .seq (foldlM (fun sum e => ?_) _ _) fun _ => .pure rfl)
    refine (sure _).seq fun letter => .ite ((primitiveHash e letter).map) ?_
    exact .ite ((ih e).seq fun v => (toInt v).map)
      ((hashOf h e).seq fun v => (toInt v).map)

lemma describe (h : inv.Agree inv') (v : Value) : Agree Eq (describe inv v) (describe inv' v) := by
  refine (callVirtual h _ _ _ _).seq fun code => (toInt code).seq fun _ =>
    get.bind fun {s s'} hs => ?_
  rw [hs.classOf_eq]
  exact .pure rfl

lemma charAt (s : String) (i : Value) : Stable (charAt s i) := by
  refine (toInt i).seq fun i => ?_
  split
  · exact .pure rfl
  · exact .raise _ _

lemma constantState (v : Value) : Stable (constantState v) := by
  refine (toObject v).seq fun o => ?_
  cases o.2.native with
  | constant name ordinal => exact .pure rfl
  | _ => exact .crash

lemma findConstant? (name : String) (vs : List Value) : Stable (findConstant? name vs) := by
  induction vs with
  | nil => exact .pure rfl
  | cons v vs ih => exact (constantState v).seq fun c => .ite (.pure rfl) ih

/-- A constant is searched for among those that its class lists. -/
lemma constantOf (h : inv.Agree inv') (cls name : Value) :
    Agree Eq (constantOf inv cls name) (constantOf inv' cls name) := by
  refine (boxedValue cls).seq fun c => (toText c).seq fun cls => ?_
  cases name with
  | str name =>
    refine (callStatic h _ _ _ _).seq fun values => (toArray values).seq fun a =>
      (findConstant? name _).seq fun v => ?_
    cases v with
    | some v => exact .pure rfl
    | none => exact .raise _ _
  | _ => exact .raise _ _

lemma append (builder : Value) (text : String) : Stable (append builder text) := by
  refine (toObject builder).seq fun o => ?_
  obtain ⟨id, o⟩ := o
  dsimp only
  cases o.native with
  | builder _ => exact .change fun _ _ => rfl
  | _ => exact .crash

/-- A platform method that calls methods which agree. -/
lemma runPlatform (h : inv.Agree inv') (fuel : Nat) (p : Platform) (args : List Value) :
    Agree Eq (runPlatform inv fuel p args) (runPlatform inv' fuel p args) := by
  have a (i : Nat) := arg args i
  cases p with
  | nothing => exact .pure rfl
  | identityHash =>
    refine (a 0).seq fun v => ?_
    cases v <;> exact .pure rfl
  | identical => exact (a 0).seq fun _ => (a 1).map
  | describe => exact (a 0).seq fun v => describe h v
  | getClass =>
    refine (a 0).seq fun v => get.bind fun {s s'} hs => ?_
    rw [hs.classOf_eq]
    exact classObject _
  | className => exact (a 0).seq fun v => (boxedValue v).seq fun v => (toText v).map
  | textHash | textLength | textIsEmpty => exact (a 0).seq fun v => (toText v).map
  | textEquals =>
    refine (a 1).seq fun v => ?_
    cases v with
    | str s => exact (a 0).seq fun v => (toText v).map
    | _ => exact .pure rfl
  | charAt => exact (a 0).seq fun v => (toText v).seq fun s => (a 1).seq fun i => charAt s i
  | itself => exact a 0
  | textOf letter => exact (a 0).seq fun v => (format h v letter).map
  | newBuilder =>
    exact (a 0).seq fun v => (toObject v).seq fun o => (setNative _ _).map
  | builderOf =>
    exact (a 1).seq fun v => (toText v).seq fun text => (a 0).seq fun v => (toObject v).seq fun o =>
      (setNative _ _).map
  | append letter =>
    exact (a 0).seq fun b => (a 1).seq fun v => (format h v letter).seq fun text =>
      (append b text).seq fun _ => a 0
  | builderText =>
    refine (a 0).seq fun v => (toObject v).seq fun o => ?_
    cases o.2.native with
    | builder text => exact .pure rfl
    | _ => exact .crash
  | box p =>
    exact (newObject _).seq fun id => (a 0).seq fun v => (setNative id _).map
  | unbox => exact (a 0).seq fun v => boxedValue v
  | hashOf p => exact (a 0).seq fun v => (primitiveHash v _).map
  | boxHash p =>
    exact (a 0).seq fun v => (boxedValue v).seq fun v => (primitiveHash v _).map
  | boxEquals p =>
    refine (a 1).seq fun v => ?_
    cases v with
    | obj id =>
      exact (getObject id).seq fun o => .ite (.pure rfl) ((a 0).seq fun v =>
        (boxedValue v).seq fun x => (boxedValue _).seq fun y => (boxedEqual x y).map)
    | _ => exact .pure rfl
  | boxText p =>
    exact (a 0).seq fun v => (boxedValue v).seq fun v => (format h v _).map
  | setMessage =>
    refine (a 1).seq fun message => ?_
    exact .ite ((a 0).seq fun v => (toObject v).seq fun o => (setField _ _ _).map)
      (.pure rfl)
  | getMessage | exceptionText => exact (a 0).seq fun v => (toObject v).map
  | newConstant =>
    exact (a 1).seq fun v => (toText v).seq fun name =>
      (a 2).seq fun v => (toInt v).seq fun ordinal =>
      (a 0).seq fun v => (toObject v).seq fun o => (setNative _ _).map
  | constantName | ordinal => exact (a 0).seq fun v => (constantState v).map
  | constantOf => exact (a 0).seq fun cls => (a 1).seq fun name => constantOf h cls name
  | equals => exact (a 0).seq fun x => (a 1).seq fun y => (valuesEqual h x y).map
  | hashCode => exact (a 0).seq fun v => hashOf h v
  | arraysEqual deep =>
    exact (a 0).seq fun x => (a 1).seq fun y => (arraysEqualUpTo h deep fuel x y).map
  | arrayHash deep => exact (a 0).seq fun v => arrayHashUpTo h deep fuel v
  | max | min =>
    exact (a 0).seq fun x => (toInt x).seq fun x => (a 1).seq fun y => (toInt y).map
  | abs => exact (a 0).seq fun v => (toInt v).map
  | cloneArray => exact (a 0).seq fun v => (toArray v).seq fun _ => newArray _ _

/-! ### Parts of instructions -/

/-- Whether something is divided by zero depends on the values only. -/
lemma arith (op : Action) (a b : Value) : Stable (arith op a b) := by
  cases a with
  | int a => exact (toInt b).seq fun b => .ite (.raise_bind _ _) (.pure rfl)
  | long a => exact (toLong b).seq fun b => .ite (.raise_bind _ _) (.pure rfl)
  | float a => exact (toFloat b).map
  | double a => exact (toDouble b).map
  | _ => exact .badCode

lemma shift (op : BitOp) (long : Bool) (a distance : Value) :
    Stable (shift op long a distance) :=
  (toInt distance).seq fun _ =>
    .ite ((toLong a).map) ((toInt a).map)

lemma negate (n : Num) (v : Value) : Stable (negate n v) := by
  cases n with
  | int => exact (toInt v).map
  | long => exact (toLong v).map
  | float => exact (toFloat v).map
  | double => exact (toDouble v).map

/-- A conversion takes values of one type. -/
lemma convert (c : Conversion) (v : Value) : Stable (convert c v) := by
  cases c with
  | i2l | i2f | i2d | i2b | i2c | i2s => exact (toInt v).map
  | l2i | l2f | l2d => exact (toLong v).map
  | f2i | f2l | f2d => exact (toFloat v).map
  | d2i | d2l | d2f => exact (toDouble v).map

lemma arrayOf (v : Value) : Stable (arrayOf v) := by
  cases v with
  | arr id => exact .pure rfl
  | null => exact .raise _ _
  | _ => exact .badCode

lemma position (a : ArrayObj) (i : Int32) : Stable (position a i) :=
  .ite (.pure rfl) (.raise _ _)

/-- An object is stored if the array takes those of its class. -/
lemma stored (e : Elem) (a : ArrayObj) (v : Value) : Stable (stored e a v) := by
  cases e with
  | byte | char | short => exact (toInt v).map
  | ref =>
    refine .ite (.pure rfl) (get.bind fun {s s'} hs => ?_)
    rw [hs.classOf_eq, hs.isAssignable_eq]
    exact (unbroken _).seq fun element => (unbroken _).seq fun b => .ite (.pure rfl) (.raise _ _)
  | _ => exact .pure rfl

lemma filled (desc : String) (n : Nat) : Stable (filled desc n) := by
  unfold Machine.filled
  split
  · exact .newArray _ _
  · exact .crash

lemma lengthOf (n : Int32) : Stable (lengthOf n) := .ite (.raise _ _) (.pure rfl)

/-- By induction on the dimensions. -/
lemma filledMany (ns : List Int) (desc : String) : Stable (filledMany ns desc) := by
  induction ns generalizing desc with
  | nil => exact .crash
  | cons n ns ih =>
    rw [Machine.filledMany]
    refine .ite .crash ((filled desc _).seq fun v => ?_)
    split
    · exact .pure rfl
    · exact (mapM (fun _ => ih _) _).seq fun elements =>
        .seq (.change fun _ _ => rfl) fun _ => .pure rfl
    · exact .pure rfl

lemma holder (what : String) (v : Value) : Stable (holder what v) := by
  cases v with
  | obj id => exact .pure rfl
  | null => exact .raise _ _
  | _ => exact .badCode

/-- A field that was not stored is zero. -/
lemma getField (ref : MemberRef) (v : Value) : Stable (getField ref v) := by
  refine (holder _ v).seq fun id => (getObject id).seq fun o => ?_
  cases o.fields.lookup ref.name with
  | some v => exact .pure rfl
  | none => exact .zeroOf _

lemma putField (ref : MemberRef) (recv v : Value) : Stable (putField ref recv v) :=
  (holder _ recv).seq fun id => setField id _ _

/-- Which method is called depends on the class of the receiver. -/
lemma dispatch (kind : CallKind) (recv : Value) (ref : MemberRef) :
    Agree Routine.Analysed (dispatch kind recv ref) (dispatch kind recv ref) := by
  refine get.bind fun {s s'} hs => ?_
  rw [hs.classOf_eq]
  exact .ite (findSpecial _ _ _) (.ite (.pure (.refl _)) (findVirtual _ _ _))

lemma enter (v : Value) : Stable (enter v) :=
  .ite (.raise_bind _ _) (.change fun _ _ => rfl)

/-- A monitor that is not held cannot be left. -/
lemma exit (v : Value) : Stable (exit v) := by
  refine .ite (.raise_bind _ _) (get.bind fun {s s'} hs => ?_)
  rw [hs.eq_of (f := fun s => s.held v)]
  exact .ite (.raise_bind _ _) (.change fun _ _ => rfl)

/-- To throw null is to throw another exception. -/
lemma throwValue {α β : Type} {R : α → β → Prop} (v : Value) :
    Agree R (throwValue v) (throwValue v) := by
  cases v with
  | obj id => exact .throw _
  | _ => exact .raise _ _

lemma checkCast (v : Value) (cls : String) : Stable (checkCast v cls) := by
  refine (instanceOf v cls).seq fun b => .ite (.pure rfl) (get.bind fun {s s'} hs => ?_)
  rw [hs.classOf_eq]
  exact .raise _ _

end Agree

/-! ### Instructions -/

/-- Frames that differ in the code of their method alone. -/
structure Frame.Analysed (f f' : Frame) : Prop where
  routine : f.routine.Analysed f'.routine
  locals : f'.locals = f.locals
  stack : f'.stack = f.stack

lemma Frame.Analysed.refl (f : Frame) : f.Analysed f := ⟨.refl _, rfl, rfl⟩

/-- Frames of one method with the same number of variables. -/
structure Frame.Steady (f f' : Frame) : Prop where
  routine : f'.routine = f.routine
  locals : f'.locals.size = f.locals.size

lemma Frame.Steady.refl (f : Frame) : f.Steady f := ⟨rfl, rfl⟩

lemma Frame.Steady.trans {f g h : Frame} (hfg : f.Steady g) (hgh : g.Steady h) : f.Steady h :=
  ⟨hgh.routine.trans hfg.routine, hgh.locals.trans hfg.locals⟩

/-- Computations in a frame that come to the same, in frames and states that are alike, and leave
the method and the number of its variables as they are. -/
def Op.Agree {α : Type} (x y : Op α) : Prop :=
  ∀ ⦃f f' s s'⦄, f.Analysed f' → s.Analysed s' → (y f' s').1.1 = (x f s).1.1 ∧
    (x f s).1.2.Analysed (y f' s').1.2 ∧ (x f s).2.Analysed (y f' s').2 ∧ f.Steady (x f s).1.2

abbrev Op.Stable {α : Type} (x : Op α) : Prop := Op.Agree x x

namespace Op.Agree

variable {α β : Type} {inv inv' : Invoke} {x y : Op α}

lemma pure (a : α) : Op.Stable (pure a) := fun _ _ _ _ hf hs => ⟨rfl, hf, hs, .refl _⟩

lemma throw (e : Stop) : Op.Agree (throw e : Op α) (throw e) :=
  fun _ _ _ _ hf hs => ⟨rfl, hf, hs, .refl _⟩

/-- The frame is steady over both parts. -/
lemma bind {k k' : α → Op β} (h : Op.Agree x y) (hk : ∀ a, Op.Agree (k a) (k' a)) :
    Op.Agree (x >>= k) (y >>= k') := by
  intro f f' s s' hf hs
  obtain ⟨hr, hf, hs, hx⟩ := h hf hs
  rw [Op.bind_apply, Op.bind_apply]
  generalize x f s = p, y f' s' = q at hr hf hs hx
  obtain ⟨⟨p, g⟩, t⟩ := p
  obtain ⟨⟨q, g'⟩, t'⟩ := q
  obtain rfl : q = p := hr
  cases q with
  | ok a =>
    obtain ⟨hr, hf, hs, hy⟩ := hk a hf hs
    exact ⟨hr, hf, hs, hx.trans hy⟩
  | error e => exact ⟨rfl, hf, hs, hx⟩

/-- A computation on the machine. -/
lemma lift {x y : Exec α} (h : Machine.Agree Eq x y) : Op.Agree (liftM x) (liftM y) :=
  fun _ _ _ _ hf hs => ⟨(h hs).1.eq.symm, hf, (h hs).2, .refl _⟩

/-- What comes after values that are alike. -/
lemma lift_bind {γ δ : Type} {R : γ → δ → Prop} {x : Exec γ} {y : Exec δ} {k : γ → Op β}
    {k' : δ → Op β} (h : Machine.Agree R x y) (hk : ∀ {a b}, R a b → Op.Agree (k a) (k' b)) :
    Op.Agree (liftM x >>= k) (liftM y >>= k') := by
  intro f f' s s' hf hs
  obtain ⟨hr, hs⟩ := h hs
  rw [Machine.lift_bind, Machine.lift_bind]
  generalize x s = p, y s' = q at hr hs
  obtain ⟨p, t⟩ := p
  obtain ⟨q, t'⟩ := q
  cases hr with
  | ok h => exact hk h hf hs
  | stop e => exact ⟨rfl, hf, hs, .refl f⟩

/-- A computation that reads the frame. -/
lemma get {k k' : Frame → Op β} (h : ∀ {f f'}, f.Analysed f' → Op.Agree (k f) (k' f')) :
    Op.Agree (get >>= k) (get >>= k') := fun _ _ _ _ hf hs => h hf hf hs

/-- A change of the values in a frame. -/
lemma modify {g : Frame → Frame}
    (h : ∀ {f f'}, f.Analysed f' → (g f).Analysed (g f') ∧ f.Steady (g f)) : Op.Stable (modify g) :=
  fun _ _ _ _ hf hs => ⟨rfl, (h hf).1, hs, (h hf).2⟩

lemma ite {p : Prop} [Decidable p] {x' y' : Op α} (h : Op.Agree x y) (h' : Op.Agree x' y') :
    Op.Agree (if p then x else x') (if p then y else y') := by
  split
  · exact h
  · exact h'

lemma mapM {g g' : α → Op β} (h : ∀ a, Op.Agree (g a) (g' a)) (as : List α) :
    Op.Agree (as.mapM g) (as.mapM g') := by
  induction as with
  | nil => exact .pure []
  | cons a as ih =>
    rw [List.mapM_cons, List.mapM_cons]
    exact (h a).bind fun b => ih.bind fun bs => .pure (b :: bs)

lemma push (v : Value) : Op.Stable (push v) :=
  modify fun hf => ⟨⟨hf.routine, hf.locals, congrArg (v :: ·) hf.stack⟩, rfl, rfl⟩

/-- Both stacks are empty, or neither is. -/
lemma pop : Op.Stable pop := by
  refine get fun {f f'} hf => ?_
  rw [hf.stack]
  cases f.stack with
  | nil => exact .throw _
  | cons v rest =>
    exact .bind (modify fun hf => ⟨⟨hf.routine, hf.locals, rfl⟩, rfl, rfl⟩) fun _ => .pure v

lemma popInt : Op.Stable popInt := pop.bind fun v => .lift (.toInt v)

lemma popLong : Op.Stable popLong := pop.bind fun v => .lift (.toLong v)

lemma popFloat : Op.Stable popFloat := pop.bind fun v => .lift (.toFloat v)

lemma popDouble : Op.Stable popDouble := pop.bind fun v => .lift (.toDouble v)

/-- Both frames have as many variables. -/
lemma slot (operand : Int) : Op.Stable (slot operand) := by
  refine get fun {f f'} hf => ?_
  rw [hf.locals]
  exact .ite (.pure _) (.throw _)

lemma load (operand : Int) : Op.Stable (load operand) := by
  refine (slot operand).bind fun i => get fun {f f'} hf => ?_
  rw [hf.locals]
  exact .pure _

lemma store (operand : Int) (v : Value) : Op.Stable (store operand v) :=
  (slot operand).bind fun i =>
    modify fun hf => ⟨⟨hf.routine, congrArg (·.setIfInBounds i v) hf.locals, hf.stack⟩, rfl,
      Array.size_setIfInBounds⟩

/-- By induction on the number of values. -/
lemma popMany (n : Nat) (args : List Value) : Op.Stable (popMany n args) := by
  induction n generalizing args with
  | zero => exact .pure args
  | succ n ih => exact pop.bind fun v => ih (v :: args)

/-- The descriptor says how many values are taken. -/
lemma popArgs (desc : String) : Op.Stable (popArgs desc) := by
  unfold Machine.popArgs
  cases Descriptor.parse desc with
  | ok d => exact popMany _ _
  | error e => exact .throw _

/-- Methods that are alike have the same pool. -/
lemma classAt (operand : Int) : Op.Stable (classAt operand) :=
  get fun {f f'} hf => by
    rw [hf.routine.pool_eq]
    exact .lift (.pooled _)

lemma memberAt (operand : Int) : Op.Stable (memberAt operand) :=
  get fun {f f'} hf => by
    rw [hf.routine.pool_eq]
    exact .lift (.pooled _)

/-- A class is pushed as an object, which may have to be made. -/
lemma constant (operand : Int) : Op.Stable (constant operand) := by
  refine get fun {f f'} hf => ?_
  rw [hf.routine.pool_eq]
  refine (lift (.pooled _)).bind fun e => ?_
  cases e with
  | int | float | long | double => exact .pure _
  | str => exact (lift (.pooled _)).bind fun s => .pure _
  | cls => exact (lift (.pooled _)).bind fun s => .lift (.classObject s)
  | _ => exact .throw _

lemma arrayLoad : Op.Stable arrayLoad :=
  popInt.bind fun i => pop.bind fun v => (lift (.arrayOf v)).bind fun id =>
    (lift (.getArray id)).bind fun a => (lift (.position a i)).bind fun _ => push _

lemma arrayStore (e : Elem) : Op.Stable (arrayStore e) :=
  pop.bind fun v => popInt.bind fun i => pop.bind fun w => (lift (.arrayOf w)).bind fun id =>
    (lift (.getArray id)).bind fun a => (lift (.position a i)).bind fun _ =>
      (lift (.stored e a v)).bind fun _ => .lift (.change fun _ _ => rfl)

/-- The methods that are found are alike, and so agree. -/
lemma call (h : inv.Agree inv') (kind : CallKind) (operand : Int) :
    Op.Agree (call inv kind operand) (call inv' kind operand) := by
  refine (memberAt operand).bind fun ref => (popArgs ref.desc).bind fun args => ?_
  have hend (v : Value) :
      Op.Stable (if returnsValue ref.desc then Machine.push v else Pure.pure ()) :=
      .ite (push v) (.pure ())
  -- a static call, a call on null, and a call on an object
  refine .ite ?_ (pop.bind fun recv => .ite ?_ ?_)
  · exact (lift (.initClass h _)).bind fun _ => .lift_bind (.findStatic _ _ _) fun hr =>
      (lift (h hr args)).bind hend
  · exact .lift_bind (.raise (R := fun _ _ => False) _ _) False.elim
  · exact .lift_bind (.dispatch kind recv ref) fun hr => (lift (h hr _)).bind hend

/-- An instruction that calls methods which agree. -/
lemma perform (h : inv.Agree inv') (i : Insn) (a : Action) :
    Op.Agree (perform inv i a) (perform inv' i a) := by
  cases a with
  | nop => exact .pure ()
  | constNull | constInt | constLong | constFloat | constDouble | pushByte | pushShort =>
    exact push _
  | ldc | ldcWide | ldcTwo => exact (constant _).bind fun v => push v
  | load | loadAt => exact (load _).bind fun v => push v
  | store | storeAt => exact pop.bind fun v => store _ v
  | arrayLoad => exact arrayLoad
  | arrayStore e => exact arrayStore e
  | pop | pop2 | dup | dupX1 | dupX2 | dup2 | dup2X1 | dup2X2 | swap =>
    refine get fun {f f'} hf => ?_
    rw [hf.stack]
    split
    · exact modify fun hf => ⟨⟨hf.routine, hf.locals, rfl⟩, rfl, rfl⟩
    · exact .throw _
  | arith => exact pop.bind fun y => pop.bind fun x => (lift (.arith _ x y)).bind fun v => push v
  | bits op long =>
    cases op with
    | and | or | xor =>
      exact pop.bind fun y => pop.bind fun x => (lift (.arith _ x y)).bind fun v => push v
    | _ => exact pop.bind fun n => pop.bind fun x => (lift (.shift _ _ x n)).bind fun v => push v
  | neg n => exact pop.bind fun v => (lift (.negate n v)).bind fun v => push v
  | increment => exact (load _).bind fun v => (lift (.toInt v)).bind fun n => store _ _
  | convert c => exact pop.bind fun v => (lift (.convert c v)).bind fun v => push v
  | compareLong => exact popLong.bind fun y => popLong.bind fun x => push _
  | compareFloat => exact popFloat.bind fun y => popFloat.bind fun x => push _
  | compareDouble => exact popDouble.bind fun y => popDouble.bind fun x => push _
  | getStatic => exact (memberAt _).bind fun r => (lift (.getStatic h _ _ _)).bind fun v => push v
  | putStatic => exact (memberAt _).bind fun r => pop.bind fun v => .lift (.putStatic h _ _ v)
  | getField =>
    exact (memberAt _).bind fun r => pop.bind fun v => (lift (.getField r v)).bind fun v => push v
  | putField =>
    exact (memberAt _).bind fun r => pop.bind fun v => pop.bind fun w => .lift (.putField r w v)
  | invokeVirtual | invokeInterface | invokeSpecial | invokeStatic => exact call h _ _
  | new =>
    exact (classAt _).bind fun cls => (lift (.initClass h cls)).bind fun _ =>
      (lift (.newObject cls)).bind fun id => push _
  | newArray =>
    exact popInt.bind fun n => (lift (.lengthOf n)).bind fun n =>
      (lift (.filled _ n)).bind fun v => push v
  | newRefArray =>
    exact (classAt _).bind fun cls => popInt.bind fun n => (lift (.lengthOf n)).bind fun n =>
      (lift (.filled _ n)).bind fun v => push v
  | newMultiArray =>
    refine (classAt _).bind fun desc => (popMany _ _).bind fun vs =>
      .bind (mapM (fun v => ?_) vs) fun dims =>
      (lift (.filledMany dims desc)).bind fun v => push v
    exact (lift (.toInt v)).bind fun n => .pure _
  | arrayLength =>
    exact pop.bind fun v => (lift (.arrayOf v)).bind fun id =>
      (lift (.getArray id)).bind fun a => push _
  | checkCast =>
    refine (classAt _).bind fun cls => get fun {f f'} hf => ?_
    rw [hf.stack]
    cases f.stack with
    | nil => exact .throw _
    | cons v rest => exact .lift (.checkCast v cls)
  | instanceOf =>
    exact (classAt _).bind fun cls =>
      pop.bind fun v => (lift (.instanceOf v cls)).bind fun b => push _
  | monitorEnter => exact pop.bind fun v => .lift (.enter v)
  | monitorExit => exact pop.bind fun v => .lift (.exit v)
  | _ => exact .throw _

/-- The stack decides whether a branch is taken. -/
lemma taken (a : Action) : Op.Stable (taken a) := by
  cases a with
  | ifZero c => exact popInt.bind fun x => .pure _
  | ifInts c => exact popInt.bind fun y => popInt.bind fun x => .pure _
  | ifRefs same => exact pop.bind fun y => pop.bind fun x => .pure _
  | ifNull | ifNonNull => exact pop.bind fun v => .pure _
  | _ => exact .pure true

/-- An instruction returns, goes on, throws, or is performed. -/
lemma step (h : inv.Agree inv') (i : Insn) : Op.Agree (step inv i) (step inv' i) := by
  unfold Machine.step
  cases i.op.action? with
  | none => exact .throw _
  | some a =>
    dsimp only
    split
    · exact pop.bind fun v => .pure _
    · exact .pure _
    · exact .pure _
    · exact popInt.bind fun key => .pure _
    · exact popInt.bind fun key => .pure _
    · exact pop.bind fun v => .lift (.throwValue v)
    · exact .ite ((taken _).bind fun b => .pure _) ((perform h i _).bind fun _ => .pure _)

end Op.Agree

/-! ### Rounds -/

/-- A key that is not listed goes to the default. -/
lemma switchTarget_mem (i : Insn) (key : Int32) : switchTarget i key ∈ i.default :: i.targets := by
  unfold switchTarget
  cases hfind : (i.keys.zip i.targets).find? _ with
  | none => exact List.mem_cons_self
  | some kt => exact List.mem_cons_of_mem _ (List.of_mem_zip (List.mem_of_find?_eq_some hfind)).2

/-- Control does not go on behind a throw. -/
lemma throwValue_ne_ok {f f' : Frame} {s s' : State} {next : Next} (v : Value) :
    (liftM (throwValue v : Exec Next) : Op Next) f s ≠ ((.ok next, f'), s') := by
  intro h
  have hok : ((throwValue v : Exec Next) s).1 = .ok next := congrArg (·.1.1) h
  cases v with
  | obj id => cases hok
  | _ =>
    obtain ⟨id, t, hr, -⟩ := raise_apply (α := Next) "java/lang/NullPointerException" "throw null" s
    rw [throwValue, hr] at hok
    · cases hok
    · simp

/-- An instruction goes on to one that it may jump to, or falls through. -/
lemma goes_of_step {inv : Invoke} {i : Insn} {f f' : Frame} {s s' : State} {pc : Int}
    (h : step inv i f s = ((.ok (.goto pc), f'), s')) :
    pc ∈ i.jumps ∨ i.fallsThrough ∧ pc = i.next := by
  unfold step at h
  unfold Insn.jumps Insn.fallsThrough
  cases ha : i.op.action? with
  | none =>
    rw [ha] at h
    cases h
  | some a =>
    rw [ha] at h
    dsimp only at h
    split at h
    -- a return, with a value or without
    · obtain ⟨v, g, t, -, h⟩ := Op.bind_eq_ok h
      cases h
    · cases h
    -- an unconditional branch
    · cases h
      exact .inl (List.mem_singleton_self _)
    · obtain ⟨key, g, t, -, h⟩ := Op.bind_eq_ok h
      cases h
      exact .inl (switchTarget_mem i key)
    · obtain ⟨key, g, t, -, h⟩ := Op.bind_eq_ok h
      cases h
      exact .inl (switchTarget_mem i key)
    -- a throw
    · obtain ⟨v, g, t, -, h⟩ := Op.bind_eq_ok h
      exact absurd h (throwValue_ne_ok v)
    -- a branch that may not be taken, or an instruction that falls through
    · split_ifs at h with hb
      · obtain ⟨b, g, t, htaken, h⟩ := Op.bind_eq_ok h
        cases h
        cases b with
        | true => cases a <;> first | exact .inl (List.mem_singleton_self _) | cases hb
        | false => cases a <;> first | exact .inr ⟨rfl, rfl⟩ | cases htaken
      · obtain ⟨u, g, t, hperform, h⟩ := Op.bind_eq_ok h
        cases h
        cases a <;> first | exact .inr ⟨rfl, rfl⟩ | exact absurd rfl hb | cases hperform

/-- Rows are tried in order, by the class of the exception. -/
lemma Agree.findHandler (pool : Pool) (pc id : Nat) (es : List ExceptionEntry) :
    Stable (findHandler pool pc id es) := by
  have hcatches (catchType : UInt16) : Stable (catches pool id catchType) :=
    .ite (.pure rfl) ((pooled _).seq fun cls => instanceOf _ cls)
  induction es with
  | nil => exact .pure rfl
  | cons e es ih =>
    rw [findHandler_cons]
    exact .ite ((hcatches _).seq fun b => .ite (.pure rfl) ih) ih

/-- A handler that is found is one of a row that covers the offset. -/
lemma mem_covering_of_findHandler {pool : Pool} {pc id q : Nat} {es : List ExceptionEntry}
    {s s' : State} (h : findHandler pool pc id es s = (.ok (some q), s')) :
    ∃ x ∈ Classwright.Body.covering es pc, x.1.toNat = q := by
  rw [findHandler_eq] at h
  generalize Classwright.Body.covering es pc = rows at h
  induction rows generalizing s with
  | nil => cases h
  | cons x rows ih =>
    rw [firstCatching, bind_apply] at h
    generalize catches pool id x.2 s = r at h
    obtain ⟨_ | _ | _, t⟩ := r
    · cases h
    · obtain ⟨y, hy, rfl⟩ := ih h
      exact ⟨y, List.mem_cons_of_mem _ hy, rfl⟩
    · cases h
      exact ⟨x, List.mem_cons_self, rfl⟩

/-- Two codes that are the same at all offsets of a set which control does not leave. -/
structure Mirrored (c : CodeAttribute) (table : Array (Option Insn)) (c' : CodeAttribute)
    (table' : Array (Option Insn)) (live : Int → Prop) : Prop where
  maxLocals : c'.maxLocals = c.maxLocals
  start : live 0
  fetch : ∀ {pc}, live pc → insnAt? table' pc = insnAt? table pc
  goes : ∀ {pc i q}, live pc → insnAt? table pc = some i →
    q ∈ i.jumps ∨ i.fallsThrough ∧ q = i.next → live q
  covering : ∀ {pc i}, live pc → insnAt? table pc = some i →
    Classwright.Body.covering c'.handlers i.offset = Classwright.Body.covering c.handlers i.offset
  handler : ∀ {pc i}, live pc → insnAt? table pc = some i →
    ∀ x ∈ Classwright.Body.covering c.handlers i.offset, live x.1.toNat

/-- Any code mirrors itself, at all offsets. -/
lemma Mirrored.refl (c : CodeAttribute) (table : Array (Option Insn)) :
    Mirrored c table c table fun _ => True := by
  constructor <;> simp

/-- Code, and what an analysis leaves of it. -/
lemma Enclosure.mirrored {m : MethodCode} {a : Analysis} {insns insns' : List Insn}
    {live : Nat → Prop} (h : Enclosure m a (insnTable a.code.length insns') live)
    (hd : Insn.Decodes 0 m.code insns) (c : CodeAttribute) :
    Mirrored { c with code := m.code, handlers := m.handlers } (insnTable m.code.length insns)
    { c with code := a.code, handlers := a.handlers } (insnTable a.code.length insns') fun pc =>
    ∃ p : Nat, pc = p ∧ live p := by
  -- At an offset of the set stands the same instruction in both codes.
  have hat {p : Nat} (hl : live p) : ∃ i, i.offset = p ∧
      Insn.decode i.offset (m.code.drop i.offset) = .ok i ∧
      insnAt? (insnTable m.code.length insns) p = some i ∧
      insnAt? (insnTable a.code.length insns') p = some i := by
    obtain ⟨i, hi, rfl⟩ := h.boundary hd hl
    have hdec := (hd.decode_of_mem hi).2.2
    exact ⟨i, rfl, hdec, insnAt?_insnTable hd hi, h.fetch hdec hl⟩
  constructor
  case maxLocals => rfl
  case start => exact ⟨0, rfl, h.start⟩
  case fetch =>
    rintro _ ⟨p, rfl, hl⟩
    obtain ⟨i, -, -, hi, hi'⟩ := hat hl
    rw [hi, hi']
  case goes =>
    rintro _ j q ⟨p, rfl, hl⟩ hj hq
    obtain ⟨i, rfl, hdec, hi, -⟩ := hat hl
    obtain rfl : j = i := Option.some.inj (hj.symm.trans hi)
    rcases hq with hq | ⟨hfall, rfl⟩
    · exact h.jump hdec hl q hq
    · exact ⟨_, rfl, h.next hdec hl hfall⟩
  case covering =>
    rintro _ j ⟨p, rfl, hl⟩ hj
    obtain ⟨i, rfl, hdec, hi, -⟩ := hat hl
    obtain rfl : j = i := Option.some.inj (hj.symm.trans hi)
    exact h.covering hl
  case handler =>
    rintro _ j ⟨p, rfl, hl⟩ hj x hx
    obtain ⟨i, rfl, hdec, hi, -⟩ := hat hl
    obtain rfl : j = i := Option.some.inj (hj.symm.trans hi)
    obtain ⟨e, he, rfl⟩ := List.mem_map.1 hx
    obtain ⟨he, hcovers⟩ := List.mem_filter.1 he
    exact ⟨_, rfl, h.handler hl he hcovers⟩

/-! ### Runs -/

/-- Rounds of a frame that end alike, or go on to the same offset of a set in the same method. -/
inductive Round.Alike (live : Int → Prop) (f₀ : Frame) : Round → Round → Prop
  | ended (r : Except Stop Value) {s s' : State} (hs : s.Analysed s') :
      Alike live f₀ (.ended (r, s)) (.ended (r, s'))
  | onward {f f' : Frame} {pc : Int} {s s' : State} (hpc : live pc) (hf : f.Analysed f')
      (hs : s.Analysed s') (hsteady : f₀.Steady f) :
        Alike live f₀ (.onward f pc s) (.onward f' pc s')

section

variable {c c' : CodeAttribute} {table table' : Array (Option Insn)} {live : Int → Prop}
  {inv inv' : Invoke} {f₀ f f' : Frame} {pc : Int} {s s' : State} {r : Round}

lemma Round.Alike.stays {r' : Round} (h : Round.Alike live f₀ r r') :
    r = .onward f pc s ∨ r' = .onward f pc s → live pc := by
  cases h with
  | ended => nofun
  | onward hpc => rintro (h | h) <;> cases h <;> exact hpc

lemma Round.Alike.steady (h : Round.Alike live f₀ (.onward f pc s) r) : f₀.Steady f := by
  cases h with
  | onward _ _ _ hsteady => exact hsteady

/-- One round in two codes that are the same where control is. -/
lemma Mirrored.round (hm : Mirrored c table c' table' live) (h : inv.Agree inv') (hpc : live pc)
    (hf : f.Analysed f') (hs : s.Analysed s') :
    Round.Alike live f (round inv c.handlers table f pc s)
    (round inv' c'.handlers table' f' pc s') := by
  unfold Machine.round
  rw [hm.fetch hpc]
  cases hi : insnAt? table pc with
  | none => exact .ended _ hs
  | some i =>
    dsimp only
    -- both sides execute the same instruction
    obtain ⟨hr, hf, hs, hsteady⟩ := Op.Agree.step h i hf hs
    rcases hx : step inv i f s with ⟨⟨x, g⟩, t⟩
    rcases hy : step inv' i f' s' with ⟨⟨y, g'⟩, t'⟩
    rw [hx] at hr hf hs hsteady
    rw [hy] at hr hf hs
    dsimp only at hr hf hs
    subst hr
    rcases y with (id | e | _) | (q | v)
    · -- The handler of an exception is found among the same rows.
      have hsame : findHandler g.routine.pool i.offset id c'.handlers =
          findHandler g.routine.pool i.offset id c.handlers := by
        rw [findHandler_eq, findHandler_eq, hm.covering hpc hi]
      obtain ⟨hq, ht⟩ := Agree.findHandler g.routine.pool i.offset id c.handlers hs
      dsimp only
      rw [hf.routine.pool_eq, hsame]
      rcases hx : findHandler g.routine.pool i.offset id c.handlers t with ⟨x, u⟩
      rcases hy : findHandler g.routine.pool i.offset id c.handlers t' with ⟨y, u'⟩
      rw [hx, hy] at hq ht
      obtain rfl : x = y := hq.eq
      rcases x with e | _ | q
      · exact .ended _ ht
      · exact .ended _ ht
      · obtain ⟨row, hrow, rfl⟩ := mem_covering_of_findHandler hx
        exact .onward (hm.handler hpc hi row hrow) ⟨hf.routine, hf.locals, rfl⟩ ht
          ⟨hsteady.routine, hsteady.locals⟩
    · exact .ended _ hs
    · exact .ended _ hs
    -- control goes on within the set
    · exact .onward (hm.goes hpc hi (goes_of_step hx)) hf hs hsteady
    · exact .ended _ hs

/-- Runs that end alike. -/
def Alike (x y : Except Stop Value × State) : Prop := x.1 = y.1 ∧ x.2.Analysed y.2

/-- What the outside is told of a crash is the same. -/
lemma Alike.contained {x y : Except Stop Value × State} (h : Alike x y) :
    Alike (contained x) (contained y) := by
  obtain ⟨x, s⟩ := x
  obtain ⟨y, s'⟩ := y
  obtain ⟨rfl, hs⟩ : x = y ∧ s.Analysed s' := h
  cases x with
  | ok v => exact ⟨rfl, hs⟩
  | error e =>
    cases e with
    | fault f => cases f <;> exact ⟨rfl, hs⟩
    | _ => exact ⟨rfl, hs⟩

/-- What methods that are alike run. -/
lemma Routine.Analysed.body {r r' : Routine} (h : r.Analysed r') :
    r'.body = r.body ∨ ∃ c table c' table' live, r.body = .code c table ∧
    r'.body = .code c' table' ∧ Mirrored c table c' table' live := by
  cases h with
  | refl => exact .inl rfl
  | code r c hlen ha hinsns hinsns' =>
    obtain ⟨is, live, his, henc⟩ := MethodCode.analyze_enclosure hlen ha
    obtain rfl := Except.ok.inj (hinsns'.symm.trans his)
    exact .inr ⟨_, _, _, _, _, rfl, rfl, henc.mirrored (Insn.decodeAll_eq_ok_iff.1 hinsns) c⟩

/-- A method is run alike if its code is. -/
lemma Mirrored.invoke (hm : Mirrored c table c' table' live) {n depth : Nat} {r r' : Routine}
    (hr : r.Analysed r') (hbody : r.body = .code c table) (hbody' : r'.body = .code c' table')
    (args : List Value) (h : ∀ {f f' : Frame} {s s' : State}, f.Analysed f' → s.Analysed s' →
    Alike (loop n (depth + 1) c table f 0 s) (loop n (depth + 1) c' table' f' 0 s')) :
    Agree Eq (invoke (n + 1) depth r args) (invoke (n + 1) depth r' args) := by
  rw [Machine.invoke, Machine.invoke, hbody, hbody']
  dsimp only
  rw [hr.text_eq, hm.maxLocals]
  refine .ite (.fault _) ?_
  cases placeArgs args 0 (Array.replicate (c.maxLocals.toNat + 1) .null) with
  | none => exact .badCode
  | some locals =>
    intro s s' hs
    have hf : Frame.Analysed ⟨r, locals, []⟩ ⟨r', locals, []⟩ := ⟨hr, rfl, rfl⟩
    obtain ⟨hsame, hs⟩ := (h hf hs).contained
    exact ⟨hsame ▸ .refl _, hs⟩

/-- Methods that are alike run alike, to any depth of calls. By induction on the fuel: a round is
the same in both codes and goes on where they are the same, and calls use up fuel. -/
lemma run_agree (n : Nat) :
    (∀ depth, Invoke.Agree (invoke n depth) (invoke n depth)) ∧
    ∀ depth {c c' : CodeAttribute} {table table' : Array (Option Insn)} {live : Int → Prop}
    {f f' : Frame} {pc : Int} {s s' : State}, Mirrored c table c' table' live → live pc →
    f.Analysed f' → s.Analysed s' →
    Alike (loop n depth c table f pc s) (loop n depth c' table' f' pc s') := by
  induction n with
  | zero => exact ⟨fun _ _ _ _ _ => .throw _, fun _ _ _ _ _ _ _ _ _ _ _ _ _ _ hs => ⟨rfl, hs⟩⟩
  | succ n ih =>
    obtain ⟨ihinvoke, ihloop⟩ := ih
    refine ⟨fun depth r r' hr args => ?_,
      fun depth {c c' table table' live f f' pc s s'} hm hpc hf hs => ?_⟩
    · rcases hr.body with hsame | ⟨c, table, c', table', live, hbody, hbody', hm⟩
      -- the same method on both sides; its code mirrors itself
      · cases hbody : r.body with
        | platform p =>
          rw [invoke, invoke, hsame, hbody]
          exact .runPlatform (ihinvoke depth) n p args
        | none =>
          rw [invoke, invoke, hsame, hbody, hr.text_eq]
          exact .fault _
        | code c table =>
          have hm := Mirrored.refl c table
          exact hm.invoke hr hbody (hsame.trans hbody) args fun hf hs =>
            ihloop (depth + 1) hm hm.start hf hs
      -- code that was analysed
      · exact hm.invoke hr hbody hbody' args fun hf hs => ihloop (depth + 1) hm hm.start hf hs
    · rw [loop, loop]
      -- one round, and the rest of the run by induction
      have hround := hm.round (ihinvoke depth) hpc hf hs
      generalize round _ _ table f pc s = x, round _ _ table' f' pc s' = y at hround
      cases hround with
      | ended r hs => exact ⟨rfl, hs⟩
      | onward hpc hf hs => exact ihloop depth hm hpc hf hs

end

end Classwright.Machine
