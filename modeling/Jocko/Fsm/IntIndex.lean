import Jocko.Fsm.Placement

namespace Jocko.Fsm

open Go MemDB List

/-- The kinds of `reflect` that `IsIntType` tells apart. -/
inductive ReflectKind where
  | int
  | int8
  | int16
  | int32
  | int64
  | other (name : String)

def ReflectKind.str : ReflectKind → String
  | int => "int"
  | int8 => "int8"
  | int16 => "int16"
  | int32 => "int32"
  | int64 => "int64"
  | other name => name

/-- The largest value of a signed kind is below this. -/
def ReflectKind.bound : ReflectKind → Nat
  | int8 => 2 ^ 7
  | int16 => 2 ^ 15
  | int32 => 2 ^ 31
  | _ => 2 ^ 63

/-- A `reflect.Value` and what its `Int` returns. -/
structure Value where
  kind : ReflectKind
  val : Int
  low : -kind.bound ≤ val
  high : val < kind.bound

/-- An object as `reflect` sees it, and as `%#v` prints it. -/
structure Reflected where
  goString : String
  field : String → Option Value

/-- `IsIntType` -/
def isIntType : ReflectKind → Option Nat
  | .int => some maxVarintLen64
  | .int8 => some 2
  | .int16 => some maxVarintLen16
  | .int32 => some maxVarintLen32
  | .int64 => some maxVarintLen64
  | .other _ => none

/-- `binary.PutVarint` into a new buffer. -/
def putVarintInto (size : Nat) (val : Int) : Except Stop Bytes :=
  if (putVarint val).length ≤ size then
    .ok (putVarint val ++ List.replicate (size - (putVarint val).length) 0)
  else .error (.panic "index out of range")

/-- `IntFieldIndex.FromObject` -/
def fromObject (field : String) (obj : Reflected) : Except Stop (Bool × Bytes) :=
  match obj.field field with
  | none => .error (.err (.new ("field '" ++ field ++ "' for " ++ obj.goString ++ " is invalid")))
  | some fv =>
    match isIntType fv.kind with
    | none => .error (.err (.new
        ("field " ++ field.quote ++ " is of type " ++ fv.kind.str ++ "; want a int")))
    | some size => (putVarintInto size fv.val).map fun buf => (true, buf)

/-- `IntFieldIndex.FromArgs`, where `none` is a nil argument. -/
def fromArgs : List (Option Value) → Except Stop Bytes
  | [none] => .error (.err (.new "<nil> is invalid"))
  | [some v] =>
    match isIntType v.kind with
    | none => .error (.err (.new ("arg is of type " ++ v.kind.str ++ "; want a int")))
    | some size => putVarintInto size v.val
  | _ => .error (.err (.new "must provide only a single argument"))

variable {kind : ReflectKind} {size : Nat}

theorem zigzag_fits (v : Value) (integer : isIntType v.kind = some size) :
    zigzag v.val < 128 ^ size ∧ 0 < size ∧ size ≤ maxVarintLen64 := by
  have small : zigzag v.val < 2 * v.kind.bound := zigzag_lt v.low v.high
  have wide : 2 * v.kind.bound ≤ 128 ^ size ∧ 0 < size ∧ size ≤ maxVarintLen64 := by
    cases named : v.kind with
    | other name => simp [named, isIntType] at integer
    | _ =>
      rw [named] at integer
      obtain rfl := Option.some.inj integer
      decide
  exact ⟨Nat.lt_of_lt_of_le small wide.1, wide.2⟩

theorem putVarint_fits (v : Value) (integer : isIntType v.kind = some size) :
    (putVarint v.val).length ≤ size := by
  obtain ⟨small, positive, -⟩ := zigzag_fits v integer
  obtain ⟨width, rfl⟩ := Nat.exists_eq_succ_of_ne_zero (Nat.ne_of_gt positive)
  exact length_putUvarint_le small

/-- The keys of one kind have one length and tell its values apart. -/
structure Faithful (kind : ReflectKind) (size : Nat) : Prop where
  fits : ∀ v : Value, v.kind = kind → (putVarint v.val).length ≤ size
  keyed : ∀ v : Value, v.kind = kind → ∃ key, key.length = size ∧ fromArgs [some v] = .ok key ∧
    ∀ field obj, obj.field field = some v → fromObject field obj = .ok (true, key)
  same : ∀ field obj v w, obj.field field = some v → v.kind = kind → w.kind = kind →
    ((fromObject field obj).map Prod.snd = fromArgs [some w] ↔ v.val = w.val)

theorem faithful_of_isIntType (integer : isIntType kind = some size) : Faithful kind size := by
  have args (w : Value) (here : w.kind = kind) : fromArgs [some w] =
      .ok (putVarint w.val ++ List.replicate (size - (putVarint w.val).length) 0) := by
    have short := putVarint_fits w (here ▸ integer)
    simp only [fromArgs, here, integer, putVarintInto, if_pos short]
  have fields (field : String) (obj : Reflected) (v : Value) (found : obj.field field = some v)
      (here : v.kind = kind) : fromObject field obj = .ok (true,
        putVarint v.val ++ List.replicate (size - (putVarint v.val).length) 0) := by
    have short := putVarint_fits v (here ▸ integer)
    simp only [fromObject, found, here, integer, putVarintInto, if_pos short]
    rfl
  refine ⟨fun v here => putVarint_fits v (here ▸ integer), fun v here => ?_,
    fun field obj v w found here here' => ?_⟩
  · have short := putVarint_fits v (here ▸ integer)
    refine ⟨_, ?_, args v here, fun field obj found => fields field obj v found here⟩
    rw [length_append, length_replicate]
    omega
  · have wide (u : Value) (named : u.kind = kind) : zigzag u.val < 128 ^ maxVarintLen64 := by
      obtain ⟨small, -, few⟩ := zigzag_fits u (named ▸ integer)
      exact Nat.lt_of_lt_of_le small (Nat.pow_le_pow_right (by decide) few)
    rw [fields field obj v found here, args w here']
    constructor
    · intro equal
      exact putVarint_append_inj (wide v here) (wide w here') (Except.ok.inj equal)
    · intro equal
      rw [← equal]
      rfl

/-- A value of kind `int32`. -/
def Value.ofInt32 (n : Int32) : Value := ⟨.int32, n.toInt, n.le_toInt, n.toInt_lt⟩

end Jocko.Fsm
