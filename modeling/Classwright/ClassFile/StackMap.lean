import Classwright.ClassFile.Attribute
import Classwright.Frame.VType

/-!
Stack maps.

A map lists the frames of a method by ascending offset. Each is written relative to the locals of
the frame before it, in the shortest of the forms that can say it.
-/

namespace Classwright

/-- The types of locals and stack at an offset. A two-word value has one entry. -/
structure MapFrame where
  offset : Nat
  locals : List VType
  stack : List VType
  deriving DecidableEq, Repr

def VType.encode (v : VType) : PoolM Bytes := do
  match v with
  | .ref c => return v.tag :: Bytes.ofU16 (← Pool.cls c)
  | .uninit offset => return v.tag :: Bytes.ofU16 (UInt16.ofNat offset)
  | _ => return [v.tag]

def encodeTypes (vs : List VType) : PoolM Bytes := do
  return (← vs.mapM VType.encode).flatten

namespace MapFrame

/-- The byte and distance of a form with a two-byte distance. -/
def header (form : UInt8) (delta : Int) : Bytes := form :: Bytes.ofInt16 delta

def encodeFull (delta : Int) (f : MapFrame) : PoolM Bytes := do
  let locals ← encodeTypes f.locals
  let stack ← encodeTypes f.stack
  return header 255 delta ++ lengthBytes f.locals ++ locals ++ lengthBytes f.stack ++ stack

/-- A frame at a distance from the one before it, whose locals are `prev`. -/
def encode (delta : Int) (prev : List VType) (f : MapFrame) : PoolM Bytes := do
  match f.stack with
  | [] =>
    if prev = f.locals then
      return if delta < 64 then [UInt8.ofInt delta] else header 251 delta
    else if f.locals.length < prev.length && prev.length ≤ f.locals.length + 3
        && prev.take f.locals.length == f.locals then
      return header (251 - UInt8.ofNat (prev.length - f.locals.length)) delta
    else if prev.length < f.locals.length && f.locals.length ≤ prev.length + 3
        && f.locals.take prev.length == prev then
      let added ← encodeTypes (f.locals.drop prev.length)
      return header (251 + UInt8.ofNat (f.locals.length - prev.length)) delta ++ added
    else f.encodeFull delta
  | [v] =>
    if prev = f.locals then
      let v ← v.encode
      return (if delta < 64 then [UInt8.ofInt (64 + delta)] else header 247 delta) ++ v
    else f.encodeFull delta
  | _ => f.encodeFull delta

end MapFrame

/-- The bytes of frames after one at `prevOffset` with locals `prev`. -/
def encodeFrames (prevOffset : Int) (prev : List VType) : List MapFrame → PoolM Bytes
  | [] => return []
  | f :: fs => do
    let frame ← f.encode (f.offset - prevOffset - 1) prev
    return frame ++ (← encodeFrames f.offset f.locals fs)

/-- The attribute for a method that starts with `initial` locals. -/
def Attribute.stackMap (initial : List VType) (frames : List MapFrame) : PoolM Attribute := do
  let body ← encodeFrames (-1) initial frames
  named "StackMapTable" (lengthBytes frames ++ body)

end Classwright
