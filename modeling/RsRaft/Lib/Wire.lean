import Mathlib.Data.UInt

/-!
# Messages as rows of tagged fields

A message is written field by field, each a tag and a value, and what is left at its
default is not written at all. It is read by a loop that takes a tag and then hands
the input to whoever knows the field of that number. The code of a message is generated;
what it calls, down to the reading of a single field, is a runtime's. Of the runtime no
more is known than that it reads what it writes and keeps what it does not know.

§1 the runtime · §2 records · §3 what is known of a runtime · §4 what is written is read ·
§5 one field · §6 sizes · §7 what is accepted.
-/

namespace Wire

/-! ## §1  The runtime -/

inductive WireType where
  | Varint
  | Fixed64
  | LengthDelimited
  | StartGroup
  | EndGroup
  | Fixed32
deriving DecidableEq, Repr

/-- The value of a field that is not known. -/
inductive UnknownValue where
  | Fixed32 (v : UInt32)
  | Fixed64 (v : UInt64)
  | Varint (v : UInt64)
  | LengthDelimited (b : List UInt8)
deriving DecidableEq, Repr

def UnknownValue.wireType : UnknownValue → WireType
  | .Fixed32 _ => .Fixed32
  | .Fixed64 _ => .Fixed64
  | .Varint _ => .Varint
  | .LengthDelimited _ => .LengthDelimited

/-- An enumeration value is kept as the number with its sign, in 64 bits. -/
def UnknownValue.ofEnum (i : Int32) : UnknownValue := .Varint i.toInt64.toUInt64

/-- Why reading stops: the runtime says so, or a loop takes nothing off its input and would
be `endless`. -/
inductive Fault (Error : Type) where
  | failed (e : Error)
  | endless
deriving DecidableEq, Repr

/-- A call on an input of type `I`, which goes on from where the call leaves it. -/
abbrev Reader (I Error α : Type) : Type := I → Except (Fault Error) (α × I)

/-- What generated code calls. -/
structure Runtime where
  Error : Type
  /-- A stream, as far as it may be read: to its end, or to the end of the message inside. -/
  Input : Type
  UnknownFields : Type
  unexpectedWireType : WireType → Error
  fromBytes : List UInt8 → Input
  /-- What is still to come. Nothing reads it; it says how far a loop has got. -/
  rest : Input → List UInt8
  /-- The input, so many bytes further on. -/
  advance : ℕ → Input → Input
  /-- How many messages, one inside the other, may still be entered: nesting has a limit. -/
  depth : Input → ℕ
  eof : Reader Input Error Bool
  readTagUnpack : Reader Input Error (ℕ × WireType)
  readUint64 : Reader Input Error UInt64
  readBool : Reader Input Error Bool
  readEnumInto : {α : Type} → (Int32 → Option α) → WireType → α → ℕ → UnknownFields →
    Reader Input Error (α × UnknownFields)
  readBytesInto : WireType → List UInt8 → Reader Input Error (List UInt8)
  readRepeatedUint64Into : WireType → List UInt64 → Reader Input Error (List UInt64)
  /-- The message inside is merged, by its own `merge_from`, into a new one. -/
  readSingularMessageInto : {M : Type} → (new : M) → (M → Reader Input Error M) → WireType →
    Option M → Reader Input Error (Option M)
  readRepeatedMessageInto : {M : Type} → (new : M) → (M → Reader Input Error M) → WireType →
    List M → Reader Input Error (List M)
  readUnknownOrSkipGroup : ℕ → WireType → UnknownFields → Reader Input Error UnknownFields
  noUnknown : UnknownFields
  addValue : ℕ → UnknownValue → UnknownFields → UnknownFields
  /-- The unknown fields in the order they are written. -/
  values : UnknownFields → List (ℕ × UnknownValue)
  writeTag : ℕ → WireType → List UInt8
  writeRawVarint32 : UInt32 → List UInt8
  writeUint64 : ℕ → UInt64 → List UInt8
  writeUint64NoTag : UInt64 → List UInt8
  writeEnum : ℕ → Int32 → List UInt8
  writeEnumNoTag : Int32 → List UInt8
  writeBool : ℕ → Bool → List UInt8
  writeBoolNoTag : Bool → List UInt8
  writeBytes : ℕ → List UInt8 → List UInt8
  writeBytesNoTag : List UInt8 → List UInt8
  writeUnknownFields : UnknownFields → List UInt8
  writeUnknownNoTag : UnknownValue → List UInt8
  computeRawVarint32Size : UInt32 → UInt32
  valueSize : ℕ → UInt64 → WireType → UInt32
  enumSize : ℕ → Int32 → UInt32
  bytesSize : ℕ → List UInt8 → UInt32
  unknownFieldsSize : UnknownFields → UInt32

/-! ## §2  Records -/

namespace Runtime

variable (R : Runtime) {M N : Type}

/-- The arm of one field in the loop that reads a message. -/
abbrev Arm (M : Type) : Type := WireType → M → Reader R.Input R.Error M

/-- `while !is.eof()`: take a tag, and let `step` read the field behind it. -/
def mergeFrom (step : ℕ → R.Arm M) (m : M) (is : R.Input) :
    Except (Fault R.Error) (M × R.Input) :=
  match R.eof is with
  | .error e => .error e
  | .ok (true, is') => .ok (m, is')
  | .ok (false, is') =>
      match R.readTagUnpack is' with
      | .error e => .error e
      | .ok ((number, wireType), is') =>
          match step number wireType m is' with
          | .error e => .error e
          | .ok (m', is') =>
              if (R.rest is').length < (R.rest is).length then mergeFrom step m' is'
              else .error .endless
termination_by (R.rest is).length

/-- A number comes as a varint and nothing else. -/
def uint64Arm (set : UInt64 → M → M) : R.Arm M := fun wireType m is => do
  if wireType ≠ .Varint then .error (.failed (R.unexpectedWireType wireType))
  else
    let (tmp, is) ← R.readUint64 is
    pure (set tmp m, is)

def boolArm (set : Bool → M → M) : R.Arm M := fun wireType m is => do
  if wireType ≠ .Varint then .error (.failed (R.unexpectedWireType wireType))
  else
    let (tmp, is) ← R.readBool is
    pure (set tmp m, is)

def enumArm {α : Type} (fromI32 : Int32 → Option α) (number : ℕ) (get : M → α)
    (unknown : M → R.UnknownFields) (set : α → R.UnknownFields → M → M) : R.Arm M :=
  fun wireType m is => do
    let ((a, u), is) ← R.readEnumInto fromI32 wireType (get m) number (unknown m) is
    pure (set a u m, is)

def bytesArm (get : M → List UInt8) (set : List UInt8 → M → M) : R.Arm M :=
  fun wireType m is => do
    let (b, is) ← R.readBytesInto wireType (get m) is
    pure (set b m, is)

def uint64sArm (get : M → List UInt64) (set : List UInt64 → M → M) : R.Arm M :=
  fun wireType m is => do
    let (vs, is) ← R.readRepeatedUint64Into wireType (get m) is
    pure (set vs m, is)

def messageArm (new : N) (merge : N → Reader R.Input R.Error N) (get : M → Option N)
    (set : Option N → M → M) : R.Arm M := fun wireType m is => do
  let (o, is) ← R.readSingularMessageInto new merge wireType (get m) is
  pure (set o m, is)

def messagesArm (new : N) (merge : N → Reader R.Input R.Error N) (get : M → List N)
    (set : List N → M → M) : R.Arm M := fun wireType m is => do
  let (l, is) ← R.readRepeatedMessageInto new merge wireType (get m) is
  pure (set l m, is)

end Runtime

/-- The fields that the reader of a message knows, and where the message keeps the others. -/
structure Record (R : Runtime) (M : Type) where
  new : M
  field : ℕ → Option (R.Arm M)
  /-- The numbers that the enumeration in the field has no name for. -/
  Nameless : ℕ → Int32 → Prop
  unknownFields : M → R.UnknownFields
  setUnknownFields : R.UnknownFields → M → M
  unknownFields_new : unknownFields new = R.noUnknown
  unknownFields_set : ∀ u m, unknownFields (setUnknownFields u m) = u
  set_set : ∀ u v m, setUnknownFields u (setUnknownFields v m) = setUnknownFields u m
  set_unknownFields : ∀ m, setUnknownFields (unknownFields m) m = m

namespace Record

variable {R : Runtime} {M : Type} (r : Record R M)

/-- The arm of a number: its field's, or that of the fields nobody knows. -/
def readField (number : ℕ) : R.Arm M := fun wireType m is =>
  match r.field number with
  | some arm => arm wireType m is
  | none => do
      let (u, is) ← R.readUnknownOrSkipGroup number wireType (r.unknownFields m) is
      pure (r.setUnknownFields u m, is)

def mergeFrom (m : M) : Reader R.Input R.Error M := R.mergeFrom r.readField m

end Record

/-! ## §3  What is known of a runtime -/

/-- The numbers a field may have. -/
def FieldNumber (n : ℕ) : Prop := 1 ≤ n ∧ n < 2 ^ 29

instance (n : ℕ) : Decidable (FieldNumber n) := inferInstanceAs (Decidable (_ ∧ _))

namespace Runtime

variable (R : Runtime)

/-- Where the bytes `b` come next, and there are `d` messages to go to the limit of nesting,
the call takes them and makes `a` of them. -/
def Takes {α : Type} (d : ℕ) (read : Reader R.Input R.Error α) (b : List UInt8) (a : α) :
    Prop :=
  ∀ is rest, d ≤ R.depth is → R.rest is = b ++ rest → read is = .ok (a, R.advance b.length is)

/-- A message can be put into another: its size is that of its bytes, and where they are all
there is to come, they are merged into a new message as the message. -/
structure Embeds {N : Type} (d : ℕ) (new : N) (merge : N → Reader R.Input R.Error N)
    (size : UInt32) (b : List UInt8) (x : N) : Prop where
  size : size.toNat = b.length
  merge : ∀ is, d ≤ R.depth is → R.rest is = b → merge new is = .ok (x, R.advance b.length is)

/-- Unknown fields that were put together one by one. -/
inductive Collected : R.UnknownFields → Prop
  | none : Collected R.noUnknown
  | add {u : R.UnknownFields} (h : Collected u) (n : ℕ) (v : UnknownValue) :
      Collected (R.addValue n v u)

end Runtime

/-- A runtime reads what it writes, whatever comes behind it, and knows how long it is. What
it does not know it keeps, and what it keeps it writes again. -/
structure Lawful (R : Runtime) : Prop where
  rest_fromBytes : ∀ b, R.rest (R.fromBytes b) = b
  advance_zero : ∀ is, R.advance 0 is = is
  advance_advance : ∀ {n k is}, n + k ≤ (R.rest is).length →
    R.advance k (R.advance n is) = R.advance (n + k) is
  rest_advance : ∀ {n is}, n ≤ (R.rest is).length → R.rest (R.advance n is) = (R.rest is).drop n
  depth_fromBytes : ∀ b, R.depth (R.fromBytes b) = 100
  depth_advance : ∀ n is, R.depth (R.advance n is) = R.depth is
  eof : ∀ is, R.eof is = .ok (decide (R.rest is = []), is)
  readTag : ∀ {n}, FieldNumber n → ∀ w, R.Takes 0 R.readTagUnpack (R.writeTag n w) (n, w)
  fieldNumber : ∀ {is n w is'}, R.readTagUnpack is = .ok ((n, w), is') → FieldNumber n
  tag_ne_nil : ∀ {n}, FieldNumber n → ∀ w, R.writeTag n w ≠ []
  /-- The numbers up to `15` have a tag of one byte. -/
  tag_low : ∀ {n}, 1 ≤ n → n ≤ 15 → ∀ w, (R.writeTag n w).length = 1
  writeUint64 : ∀ n v, R.writeUint64 n v = R.writeTag n .Varint ++ R.writeUint64NoTag v
  readUint64 : ∀ v, R.Takes 0 R.readUint64 (R.writeUint64NoTag v) v
  readRepeatedUint64 : ∀ vs v,
    R.Takes 0 (R.readRepeatedUint64Into .Varint vs) (R.writeUint64NoTag v) (vs ++ [v])
  valueSize : ∀ {n}, FieldNumber n → ∀ v,
    R.valueSize n v .Varint = UInt32.ofNat (R.writeUint64 n v).length
  writeBool : ∀ n b, R.writeBool n b = R.writeTag n .Varint ++ R.writeBoolNoTag b
  readBool : ∀ b, R.Takes 0 R.readBool (R.writeBoolNoTag b) b
  boolSize : ∀ b, (R.writeBoolNoTag b).length = 1
  writeEnum : ∀ n i, R.writeEnum n i = R.writeTag n .Varint ++ R.writeEnumNoTag i
  readEnum : ∀ {α : Type} {fromI32 : Int32 → Option α} {i a}, fromI32 i = some a → ∀ b n u,
    R.Takes 0 (R.readEnumInto fromI32 .Varint b n u) (R.writeEnumNoTag i) (a, u)
  /-- A number without a name leaves the value as it is, and is kept. -/
  readNameless : ∀ {α : Type} {fromI32 : Int32 → Option α} {i}, fromI32 i = none → ∀ b n u,
    R.Takes 0 (R.readEnumInto fromI32 .Varint b n u) (R.writeEnumNoTag i)
      (b, R.addValue n (.ofEnum i) u)
  acceptEnum : ∀ {α : Type} {fromI32 : Int32 → Option α} {w b n u is a u' is'},
    R.readEnumInto fromI32 w b n u is = .ok ((a, u'), is') →
      u' = u ∨ ∃ i, fromI32 i = none ∧ u' = R.addValue n (.ofEnum i) u
  enumSize : ∀ {n}, FieldNumber n → ∀ i,
    R.enumSize n i = UInt32.ofNat (R.writeEnum n i).length
  writeBytes : ∀ n b, R.writeBytes n b = R.writeTag n .LengthDelimited ++ R.writeBytesNoTag b
  readBytes : ∀ {b}, b.length < 2 ^ 32 → ∀ b',
    R.Takes 0 (R.readBytesInto .LengthDelimited b') (R.writeBytesNoTag b) b
  bytesSize : ∀ {n}, FieldNumber n → ∀ {b}, b.length < 2 ^ 32 →
    R.bytesSize n b = UInt32.ofNat (R.writeBytes n b).length
  length_bytes : ∀ b, b.length ≤ (R.writeBytesNoTag b).length
  readMessage : ∀ {N : Type} {d} {new : N} {merge size b x}, R.Embeds d new merge size b x →
    ∀ o, R.Takes (d + 1) (R.readSingularMessageInto new merge .LengthDelimited o)
      (R.writeRawVarint32 size ++ b) (some x)
  readRepeatedMessage : ∀ {N : Type} {d} {new : N} {merge size b x},
    R.Embeds d new merge size b x →
    ∀ l, R.Takes (d + 1) (R.readRepeatedMessageInto new merge .LengthDelimited l)
      (R.writeRawVarint32 size ++ b) (l ++ [x])
  /-- A message inside was merged into a new one. -/
  acceptMessage : ∀ {N : Type} {new : N} {merge w o is o' is'},
    R.readSingularMessageInto new merge w o is = .ok (o', is') →
      ∃ x is₀ is₁, merge new is₀ = .ok (x, is₁) ∧ o' = some x
  acceptRepeatedMessage : ∀ {N : Type} {new : N} {merge w l is l' is'},
    R.readRepeatedMessageInto new merge w l is = .ok (l', is') →
      ∃ x is₀ is₁, merge new is₀ = .ok (x, is₁) ∧ l' = l ++ [x]
  varint32Size : ∀ v,
    R.computeRawVarint32Size v = UInt32.ofNat (R.writeRawVarint32 v).length
  values_noUnknown : R.values R.noUnknown = []
  values_addValue : ∀ {n v u x}, x ∈ R.values (R.addValue n v u) → x ∈ R.values u ∨ x = (n, v)
  /-- Collected again in the order of writing, the same fields are the same. -/
  addValue_values : ∀ {u}, R.Collected u →
    (R.values u).foldl (fun u x => R.addValue x.1 x.2 u) R.noUnknown = u
  writeUnknownFields : ∀ {u}, R.Collected u → R.writeUnknownFields u =
    (R.values u).flatMap fun x => R.writeTag x.1 x.2.wireType ++ R.writeUnknownNoTag x.2
  writeUnknown_ofEnum : ∀ i, R.writeUnknownNoTag (.ofEnum i) = R.writeEnumNoTag i
  readUnknown : ∀ {v}, (R.writeUnknownNoTag v).length < 2 ^ 32 → ∀ n u,
    R.Takes 0 (R.readUnknownOrSkipGroup n v.wireType u) (R.writeUnknownNoTag v) (R.addValue n v u)
  acceptUnknown : ∀ {n w u is u' is'}, R.readUnknownOrSkipGroup n w u is = .ok (u', is') →
    u' = u ∨ ∃ v, u' = R.addValue n v u
  unknownFieldsSize : ∀ {u}, R.Collected u → (R.writeUnknownFields u).length < 2 ^ 32 →
    R.unknownFieldsSize u = UInt32.ofNat (R.writeUnknownFields u).length

/-- Of a runtime of base-128 numbers, seven bits a byte, the lengths are known as well. -/
structure SevenBit (R : Runtime) : Prop where
  length_uint64 : ∀ v, (R.writeUint64NoTag v).length = Nat.log2 v.toNat / 7 + 1
  length_enum : ∀ i,
    (R.writeEnumNoTag i).length = Nat.log2 i.toInt64.toUInt64.toNat / 7 + 1
  length_bytes : ∀ {b}, b.length < 2 ^ 32 →
    (R.writeBytesNoTag b).length = Nat.log2 b.length / 7 + 1 + b.length

/-- A message inside another, behind the size that was computed for it. -/
def Runtime.writeMessage (R : Runtime) (n : ℕ) (size : UInt32) (b : List UInt8) : List UInt8 :=
  R.writeTag n .LengthDelimited ++ (R.writeRawVarint32 size ++ b)

/-! ## §4  What is written is read -/

theorem ofNat_length_append (b b' : List UInt8) :
    UInt32.ofNat (b ++ b').length = UInt32.ofNat b.length + UInt32.ofNat b'.length := by
  rw [List.length_append, UInt32.ofNat_add]

theorem ofNat_length_ite {c : Prop} [Decidable c] (b : List UInt8) :
    UInt32.ofNat (if c then b else []).length = if c then UInt32.ofNat b.length else 0 := by
  split <;> rfl

theorem ofNat_length_flatMap {α : Type} {f : α → List UInt8} {size : α → UInt32} {l : List α}
    (h : ∀ x ∈ l, size x = UInt32.ofNat (f x).length) :
    UInt32.ofNat (l.flatMap f).length = (l.map size).sum := by
  induction l with
  | nil => rfl
  | cons x l ih =>
      have hx := h x (by simp)
      have hrest := ih fun y hy => h y (by simp [hy])
      rw [List.flatMap_cons, ofNat_length_append, hrest, List.map_cons, List.sum_cons, hx]

theorem length_le_flatMap {α β : Type} (f : α → List β) {x : α} {l : List α} (hx : x ∈ l) :
    (f x).length ≤ (l.flatMap f).length :=
  (List.sublist_flatten_of_mem (List.mem_map_of_mem hx)).length_le

section Length

variable {R : Runtime} {N : Type} (size : N → UInt32) (write : N → List UInt8) (n : ℕ)

/-- The bytes of a field are among those written for it. -/
theorem Lawful.length_le_writeBytes (hR : Lawful R) (bytes : List UInt8) :
    bytes.length ≤ (if bytes ≠ [] then R.writeBytes n bytes else []).length := by
  split
  · rw [hR.writeBytes, List.length_append]
    exact Nat.le_trans (hR.length_bytes bytes) (Nat.le_add_left _ _)
  · rename_i hnil
    rw [not_not.mp hnil]

theorem length_le_writeMessage (size : UInt32) (b : List UInt8) :
    b.length ≤ (R.writeMessage n size b).length := by
  rw [Runtime.writeMessage, List.length_append, List.length_append]
  omega

theorem length_le_optional {o : Option N} {x : N} (ho : o = some x) :
    (write x).length ≤ (o.elim [] fun x => R.writeMessage n (size x) (write x)).length := by
  subst ho
  exact length_le_writeMessage n _ _

theorem length_le_repeated {l : List N} {x : N} (hx : x ∈ l) :
    (write x).length ≤ (l.flatMap fun x => R.writeMessage n (size x) (write x)).length :=
  (length_le_writeMessage n _ _).trans
    (length_le_flatMap (fun x => R.writeMessage n (size x) (write x)) hx)

end Length

section Reads

variable {R : Runtime} {M : Type} {r : Record R M} {b b' : List UInt8} {m m' m'' : M} {n d : ℕ}

/-- Reading the bytes `b` turns `m` into `m'`, and goes on behind them. -/
def Reads (r : Record R M) (d : ℕ) (b : List UInt8) (m m' : M) : Prop :=
  ∀ is rest, d ≤ R.depth is → R.rest is = b ++ rest →
    r.mergeFrom m is = r.mergeFrom m' (R.advance b.length is)

theorem Runtime.Takes.mono {α : Type} {read : Reader R.Input R.Error α} {a : α} {d' : ℕ}
    (h : R.Takes d read b a) (hd : d ≤ d') : R.Takes d' read b a :=
  fun is rest hdepth => h is rest (hd.trans hdepth)

/-- The call of an arm, with what the arm makes of its value. -/
theorem Runtime.Takes.arm {α : Type} {read : Reader R.Input R.Error α} {a : α}
    (h : R.Takes d read b a) (f : α → M) :
    R.Takes d (fun is => read is >>= fun x => pure (f x.1, x.2)) b (f a) := by
  intro is rest hdepth hrest
  show (read is >>= _) = _
  rw [h is rest hdepth hrest]
  rfl

theorem Record.takes_field {arm : R.Arm M} (hfield : r.field n = some arm) {w : WireType}
    (h : R.Takes d (arm w m) b m') : R.Takes d (r.readField n w m) b m' := by
  intro is rest hdepth hrest
  rw [Record.readField, hfield]
  exact h is rest hdepth hrest

variable (hR : Lawful R)

include hR

theorem Lawful.rest_behind {is : R.Input} {rest : List UInt8} (h : R.rest is = b ++ rest) :
    R.rest (R.advance b.length is) = rest := by
  rw [hR.rest_advance, h, List.drop_left]
  rw [h, List.length_append]
  exact Nat.le_add_right _ _

theorem Lawful.advance_behind {is : R.Input} {rest : List UInt8}
    (h : R.rest is = b ++ (b' ++ rest)) :
    R.advance b'.length (R.advance b.length is) = R.advance (b ++ b').length is := by
  rw [hR.advance_advance, List.length_append]
  rw [h, List.length_append, List.length_append]
  omega

theorem Reads.nil : Reads r d [] m m := fun is _ _ _ => by
  rw [List.length_nil, hR.advance_zero]

theorem Reads.append (h : Reads r d b m m') (h' : Reads r d b' m' m'') :
    Reads r d (b ++ b') m m'' := by
  intro is rest hdepth hrest
  have hdepth' : d ≤ R.depth (R.advance b.length is) := by rwa [hR.depth_advance]
  rw [List.append_assoc] at hrest
  rw [h is _ hdepth hrest, h' _ rest hdepth' (hR.rest_behind hrest), hR.advance_behind hrest]

/-- An input that holds the bytes and nothing else. -/
theorem Reads.merge (h : Reads r d b m m') (is : R.Input) (hdepth : d ≤ R.depth is)
    (hrest : R.rest is = b) : r.mergeFrom m is = .ok (m', R.advance b.length is) := by
  have hall : R.rest is = b ++ [] := by rw [hrest, List.append_nil]
  rw [h is [] hdepth hall, Record.mergeFrom, Runtime.mergeFrom, hR.eof, hR.rest_behind hall]
  rfl

/-- What was written for a record and sent alone is read as the record. -/
theorem Reads.fromBytes (h : Reads r d b r.new m) (hd : d ≤ 100) :
    (r.mergeFrom r.new (R.fromBytes b)).map Prod.fst = .ok m := by
  rw [h.merge hR _ (hd.trans_eq (hR.depth_fromBytes b).symm) (hR.rest_fromBytes b)]
  rfl

/-- What is left at its default is not written. -/
theorem Reads.ite {c : Prop} [Decidable c] (h : c → Reads r d b m m') (hno : ¬ c → m' = m) :
    Reads r d (if c then b else []) m m' := by
  split
  · exact h ‹_›
  · rw [hno ‹_›]
    exact .nil hR

/-- One element after another. -/
theorem Reads.flatMap {α : Type} {f : α → List UInt8} {g : List α → M} {l : List α}
    (h : ∀ x ∈ l, ∀ before, Reads r d (f x) (g before) (g (before ++ [x]))) :
    Reads r d (l.flatMap f) (g []) (g l) := by
  -- the elements that are read move over from `after`
  have hmove : ∀ before after, l = before ++ after →
      Reads r d (after.flatMap f) (g before) (g l) := by
    intro before after hl
    induction after generalizing before with
    | nil =>
        rw [hl, List.append_nil]
        exact .nil hR
    | cons x after ih =>
        rw [List.flatMap_cons]
        exact (h x (by simp [hl]) before).append hR (ih (before ++ [x]) (by simp [hl]))
  exact hmove [] l rfl

/-! ## §5  One field -/

/-- The loop goes once round for a field. -/
theorem Lawful.reads (hn : FieldNumber n) {w : WireType}
    (hstep : R.Takes d (r.readField n w m) b m') : Reads r d (R.writeTag n w ++ b) m m' := by
  intro is rest hdepth hrest
  have hdepth' : d ≤ R.depth (R.advance (R.writeTag n w).length is) := by
    rwa [hR.depth_advance]
  have hpos : 0 < (R.writeTag n w).length := List.length_pos_of_ne_nil (hR.tag_ne_nil hn w)
  have hbehind := hR.rest_behind hrest
  rw [List.append_assoc] at hrest
  have hsome : R.rest is ≠ [] := by
    intro hnil
    have hlen := congrArg List.length hrest
    rw [hnil, List.length_append, List.length_nil] at hlen
    omega
  rw [Record.mergeFrom, Runtime.mergeFrom, hR.eof, decide_eq_false hsome]
  dsimp only
  rw [hR.readTag hn w is _ (Nat.zero_le _) hrest]
  dsimp only
  rw [hstep _ rest hdepth' (hR.rest_behind hrest)]
  dsimp only
  rw [hR.advance_behind hrest, if_pos]
  · rfl
  · rw [hbehind, hrest, List.length_append, List.length_append]
    omega

/-- A field with nothing inside is read at any depth. -/
theorem Lawful.reads_flat {arm : R.Arm M} (hn : FieldNumber n) (hfield : r.field n = some arm)
    {w : WireType} (h : R.Takes 0 (arm w m) b m') : Reads r d (R.writeTag n w ++ b) m m' :=
  hR.reads hn ((Record.takes_field hfield h).mono (Nat.zero_le d))

theorem Lawful.reads_uint64 {set : UInt64 → M → M} (hn : FieldNumber n)
    (hfield : r.field n = some (R.uint64Arm set)) (v : UInt64) (h0 : set 0 m = m) :
    Reads r d (if v ≠ 0 then R.writeUint64 n v else []) m (set v m) := by
  refine Reads.ite hR (fun _ => ?_) fun hv => by rw [not_not.mp hv, h0]
  rw [hR.writeUint64]
  exact hR.reads_flat hn hfield ((hR.readUint64 v).arm fun v => set v m)

theorem Lawful.reads_bool {set : Bool → M → M} (hn : FieldNumber n)
    (hfield : r.field n = some (R.boolArm set)) (v : Bool) (h0 : set false m = m) :
    Reads r d (if v ≠ false then R.writeBool n v else []) m (set v m) := by
  refine Reads.ite hR (fun _ => ?_) fun hv => by rw [not_not.mp hv, h0]
  rw [hR.writeBool]
  exact hR.reads_flat hn hfield ((hR.readBool v).arm fun v => set v m)

theorem Lawful.reads_enum {α : Type} [DecidableEq α] {fromI32 : Int32 → Option α}
    {value : α → Int32} {get : M → α} {set : α → R.UnknownFields → M → M} (hn : FieldNumber n)
    (hfield : r.field n = some (R.enumArm fromI32 n get r.unknownFields set)) (blank a : α)
    (ha : fromI32 (value a) = some a) (h0 : set blank (r.unknownFields m) m = m) :
    Reads r d (if a ≠ blank then R.writeEnum n (value a) else []) m
      (set a (r.unknownFields m) m) := by
  refine Reads.ite hR (fun _ => ?_) fun heq => by rw [not_not.mp heq, h0]
  rw [hR.writeEnum]
  exact hR.reads_flat hn hfield ((hR.readEnum ha (get m) n _).arm fun x => set x.1 x.2 m)

theorem Lawful.reads_bytes {get : M → List UInt8} {set : List UInt8 → M → M}
    (hn : FieldNumber n) (hfield : r.field n = some (R.bytesArm get set)) {bytes : List UInt8}
    (hlen : bytes.length < 2 ^ 32) (h0 : set [] m = m) :
    Reads r d (if bytes ≠ [] then R.writeBytes n bytes else []) m (set bytes m) := by
  refine Reads.ite hR (fun _ => ?_) fun hnil => by rw [not_not.mp hnil, h0]
  rw [hR.writeBytes]
  exact hR.reads_flat hn hfield ((hR.readBytes hlen (get m)).arm fun b => set b m)

/-- Numbers of a list, one by one. -/
theorem Lawful.reads_uint64s {get : M → List UInt64} {set : List UInt64 → M → M}
    (hn : FieldNumber n) (hfield : r.field n = some (R.uint64sArm get set)) (l : List UInt64)
    (hget : ∀ l, get (set l m) = l) (hset : ∀ l l', set l' (set l m) = set l' m)
    (h0 : set [] m = m) : Reads r d (l.flatMap (R.writeUint64 n)) m (set l m) := by
  have hread : Reads r d (l.flatMap (R.writeUint64 n)) (set [] m) (set l m) := by
    refine Reads.flatMap (g := fun l => set l m) hR fun v _ before => ?_
    have hmore : set (before ++ [v]) m = set (get (set before m) ++ [v]) (set before m) := by
      rw [hset, hget]
    rw [hR.writeUint64, hmore]
    exact hR.reads_flat hn hfield
      ((hR.readRepeatedUint64 (get (set before m)) v).arm fun vs => set vs (set before m))
  rwa [h0] at hread

section Messages

variable {N : Type} {new : N} {merge : N → Reader R.Input R.Error N} {size : N → UInt32}
  {write : N → List UInt8}

/-- A message inside, if there is one. -/
theorem Lawful.reads_message {get : M → Option N} {set : Option N → M → M} (hn : FieldNumber n)
    (hfield : r.field n = some (R.messageArm new merge get set)) {o : Option N}
    (h : ∀ x, o = some x → R.Embeds d new merge (size x) (write x) x) (h0 : set none m = m) :
    Reads r (d + 1) (o.elim [] fun x => R.writeMessage n (size x) (write x)) m (set o m) := by
  cases o with
  | none =>
      rw [h0]
      exact .nil hR
  | some x => exact hR.reads hn (Record.takes_field hfield
      ((hR.readMessage (h x rfl) (get m)).arm fun o => set o m))

/-- The messages of a list, each behind those before it. -/
theorem Lawful.reads_messages {get : M → List N} {set : List N → M → M} (hn : FieldNumber n)
    (hfield : r.field n = some (R.messagesArm new merge get set)) {l : List N}
    (h : ∀ x ∈ l, R.Embeds d new merge (size x) (write x) x) (hget : ∀ l, get (set l m) = l)
    (hset : ∀ l l', set l' (set l m) = set l' m) (h0 : set [] m = m) :
    Reads r (d + 1) (l.flatMap fun x => R.writeMessage n (size x) (write x)) m (set l m) := by
  have hread : Reads r (d + 1) (l.flatMap fun x => R.writeMessage n (size x) (write x))
      (set [] m) (set l m) := by
    refine Reads.flatMap (g := fun l => set l m) hR fun x hx before => ?_
    have hmore : set (before ++ [x]) m = set (get (set before m) ++ [x]) (set before m) := by
      rw [hset, hget]
    rw [hmore]
    exact hR.reads hn (Record.takes_field hfield
      ((hR.readRepeatedMessage (h x hx) (get (set before m))).arm
        fun l => set l (set before m)))
  rwa [h0] at hread

end Messages

/-- What a reader keeps of fields that are not its own. A number without a name comes under
the number of its enumeration. -/
structure Unread (r : Record R M) (u : R.UnknownFields) : Prop where
  collected : R.Collected u
  values : ∀ x ∈ R.values u, FieldNumber x.1 ∧
    (r.field x.1 = none ∨ ∃ i, x.2 = .ofEnum i ∧ r.Nameless x.1 i)

section Unknown

variable {u : R.UnknownFields}

/-- The unknown fields come back as they were, if a number without a name is kept each time it
is read. -/
theorem Lawful.reads_unknown (hu : Unread r u) (hlen : (R.writeUnknownFields u).length < 2 ^ 32)
    (hnameless : ∀ n i, r.Nameless n i → ∀ m, R.Takes 0 (r.readField n .Varint m)
      (R.writeEnumNoTag i)
      (r.setUnknownFields (R.addValue n (.ofEnum i) (r.unknownFields m)) m))
    (hm : r.unknownFields m = R.noUnknown) :
    Reads r d (R.writeUnknownFields u) m (r.setUnknownFields u m) := by
  have hread : Reads r d (R.writeUnknownFields u) (r.setUnknownFields R.noUnknown m)
      (r.setUnknownFields ((R.values u).foldl
        (fun u (x : ℕ × UnknownValue) => R.addValue x.1 x.2 u) R.noUnknown) m) := by
    rw [hR.writeUnknownFields hu.collected] at hlen ⊢
    refine Reads.flatMap (g := fun xs => r.setUnknownFields (xs.foldl
      (fun u (x : ℕ × UnknownValue) => R.addValue x.1 x.2 u) R.noUnknown) m) hR ?_
    intro x hx before
    obtain ⟨hn, hown⟩ := hu.values x hx
    rw [List.foldl_append, List.foldl_cons, List.foldl_nil]
    refine hR.reads hn (Runtime.Takes.mono ?_ (Nat.zero_le d))
    generalize hv : before.foldl (fun u (x : ℕ × UnknownValue) => R.addValue x.1 x.2 u)
      R.noUnknown = v
    rcases hown with hown | ⟨i, hi, hname⟩
    · have hle := length_le_flatMap
        (fun x : ℕ × UnknownValue => R.writeTag x.1 x.2.wireType ++ R.writeUnknownNoTag x.2) hx
      rw [List.length_append] at hle
      have hshort : (R.writeUnknownNoTag x.2).length < 2 ^ 32 :=
        Nat.lt_of_le_of_lt ((Nat.le_add_left _ _).trans hle) hlen
      intro is rest hdepth hrest
      rw [Record.readField, hown]
      show (R.readUnknownOrSkipGroup _ _ _ is >>= _) = _
      rw [r.unknownFields_set, hR.readUnknown hshort x.1 v is rest hdepth hrest]
      show Except.ok (r.setUnknownFields _ (r.setUnknownFields v m), _) = _
      rw [r.set_set]
    · have htakes := hnameless x.1 i hname (r.setUnknownFields v m)
      rw [r.unknownFields_set, r.set_set, ← hR.writeUnknown_ofEnum, ← hi] at htakes
      rw [hi] at htakes ⊢
      exact htakes
  rwa [hR.addValue_values hu.collected, ← hm, r.set_unknownFields] at hread

/-- A number without a name in the field of an enumeration. -/
theorem Lawful.takes_nameless {α : Type} {fromI32 : Int32 → Option α} {get : M → α}
    {set : α → R.UnknownFields → M → M}
    (hfield : r.field n = some (R.enumArm fromI32 n get r.unknownFields set)) {i : Int32}
    (hi : fromI32 i = none) (hset : ∀ u m, set (get m) u m = r.setUnknownFields u m) (m : M) :
    R.Takes 0 (r.readField n .Varint m) (R.writeEnumNoTag i)
      (r.setUnknownFields (R.addValue n (.ofEnum i) (r.unknownFields m)) m) := by
  rw [← hset]
  exact Record.takes_field hfield
    ((hR.readNameless hi (get m) n (r.unknownFields m)).arm fun x => set x.1 x.2 m)

end Unknown

/-! ## §6  Sizes -/

/-- The size of a flag is known beforehand. -/
theorem Lawful.size_bool (hlow : n ≤ 15) (hpos : 1 ≤ n) (v : Bool) :
    UInt32.ofNat (R.writeBool n v).length = 2 := by
  rw [hR.writeBool, List.length_append, hR.tag_low hpos hlow, hR.boolSize]
  rfl

/-- The tag of a message inside is taken to be one byte. -/
theorem Lawful.size_message (hlow : n ≤ 15) (hpos : 1 ≤ n) {size : UInt32}
    (hsize : size = UInt32.ofNat b.length) :
    UInt32.ofNat (R.writeMessage n size b).length =
      1 + R.computeRawVarint32Size size + size := by
  rw [Runtime.writeMessage, ofNat_length_append, ofNat_length_append, hR.tag_low hpos hlow,
    ← hsize, hR.varint32Size, UInt32.add_assoc]
  rfl

theorem Lawful.size_optional {N : Type} {size : N → UInt32} {write : N → List UInt8}
    (hlow : n ≤ 15) (hpos : 1 ≤ n) {o : Option N}
    (hsize : ∀ x, o = some x → size x = UInt32.ofNat (write x).length) :
    UInt32.ofNat (o.elim [] fun x => R.writeMessage n (size x) (write x)).length =
      o.elim 0 fun x => 1 + R.computeRawVarint32Size (size x) + size x := by
  cases o with
  | none => rfl
  | some x => exact hR.size_message hlow hpos (hsize x rfl)

omit hR in
theorem Runtime.Embeds.size_eq {N : Type} {new : N} {merge : N → Reader R.Input R.Error N}
    {size : UInt32} {x : N} (h : R.Embeds d new merge size b x) :
    size = UInt32.ofNat b.length := by
  rw [← h.size, UInt32.ofNat_toNat]

/-- A message whose size was computed and whose bytes are read can be put into another. -/
theorem Reads.embeds {size : UInt32} (h : Reads r d b r.new m)
    (hsize : size = UInt32.ofNat b.length) (hlen : b.length < 2 ^ 32) :
    R.Embeds d r.new r.mergeFrom size b m where
  size := by rw [hsize, UInt32.toNat_ofNat_of_lt' hlen]
  merge := h.merge hR

end Reads

/-! ## §7  What is accepted

A reader that accepts its input has made something of it that it can write. -/

theorem bind_ok {ε α β : Type} {x : Except ε α} {f : α → Except ε β} {b : β}
    (h : (x >>= f) = .ok b) : ∃ a, x = .ok a ∧ f a = .ok b := by
  cases x with
  | error e => cases h
  | ok a => exact ⟨a, rfl, h⟩

section Accepted

variable {R : Runtime} {M N : Type} {r : Record R M} {Inside : M → Prop} {n : ℕ}

/-- The unknown fields are as they were, or a number without a name has come to them. -/
def Record.Kept (r : Record R M) (n : ℕ) (m m' : M) : Prop :=
  r.unknownFields m' = r.unknownFields m ∨
    ∃ i, r.Nameless n i ∧ r.unknownFields m' = R.addValue n (.ofEnum i) (r.unknownFields m)

/-- What the arm of the field `n` leaves, if it accepts its input. -/
def Record.Keeps (r : Record R M) (Inside : M → Prop) (n : ℕ) (arm : R.Arm M) : Prop :=
  ∀ w m is m' is', arm w m is = .ok (m', is') → Inside m → Inside m' ∧ r.Kept n m m'

theorem Record.keeps_of_read {α : Type} (read : WireType → M → Reader R.Input R.Error α)
    (set : α → M → M) (h : ∀ w m is a is', read w m is = .ok (a, is') → Inside m →
      Inside (set a m) ∧ r.Kept n m (set a m)) :
    r.Keeps Inside n fun w m is => read w m is >>= fun x => pure (set x.1 m, x.2) := by
  intro w m is m' is' hrun hm
  obtain ⟨⟨a, is₁⟩, hread, hrun⟩ := bind_ok hrun
  cases hrun
  exact h w m is a is₁ hread hm

/-- An arm that sets a field for which nothing is promised. -/
theorem Record.keeps_of_set {α : Type} (read : WireType → M → Reader R.Input R.Error α)
    (set : α → M → M) (h : ∀ a m, Inside m → Inside (set a m))
    (hu : ∀ a m, r.unknownFields (set a m) = r.unknownFields m) :
    r.Keeps Inside n fun w m is => read w m is >>= fun x => pure (set x.1 m, x.2) :=
  keeps_of_read read set fun _ m _ a _ _ hm => ⟨h a m hm, .inl (hu a m)⟩

theorem Record.keeps_uint64 {set : UInt64 → M → M} (h : ∀ v m, Inside m → Inside (set v m))
    (hu : ∀ v m, r.unknownFields (set v m) = r.unknownFields m) :
    r.Keeps Inside n (R.uint64Arm set) := by
  intro w m is m' is' hrun
  rw [Runtime.uint64Arm] at hrun
  split at hrun
  · cases hrun
  · exact keeps_of_set (fun _ _ => R.readUint64) set h hu w m is m' is' hrun

theorem Record.keeps_bool {set : Bool → M → M} (h : ∀ v m, Inside m → Inside (set v m))
    (hu : ∀ v m, r.unknownFields (set v m) = r.unknownFields m) :
    r.Keeps Inside n (R.boolArm set) := by
  intro w m is m' is' hrun
  rw [Runtime.boolArm] at hrun
  split at hrun
  · cases hrun
  · exact keeps_of_set (fun _ _ => R.readBool) set h hu w m is m' is' hrun

theorem Record.keeps_bytes {get : M → List UInt8} {set : List UInt8 → M → M}
    (h : ∀ b m, Inside m → Inside (set b m))
    (hu : ∀ b m, r.unknownFields (set b m) = r.unknownFields m) :
    r.Keeps Inside n (R.bytesArm get set) :=
  keeps_of_set (fun w m => R.readBytesInto w (get m)) set h hu

theorem Record.keeps_uint64s {get : M → List UInt64} {set : List UInt64 → M → M}
    (h : ∀ vs m, Inside m → Inside (set vs m))
    (hu : ∀ vs m, r.unknownFields (set vs m) = r.unknownFields m) :
    r.Keeps Inside n (R.uint64sArm get set) :=
  keeps_of_set (fun w m => R.readRepeatedUint64Into w (get m)) set h hu

theorem Lawful.keeps_enum (hR : Lawful R) {α : Type} {fromI32 : Int32 → Option α}
    {get : M → α} {set : α → R.UnknownFields → M → M}
    (h : ∀ a u m, Inside m → Inside (set a u m))
    (hu : ∀ a u m, r.unknownFields (set a u m) = u)
    (hname : ∀ i, fromI32 i = none → r.Nameless n i) :
    r.Keeps Inside n (R.enumArm fromI32 n get r.unknownFields set) := by
  refine Record.keeps_of_read
    (fun w m => R.readEnumInto fromI32 w (get m) n (r.unknownFields m))
    (fun x m => set x.1 x.2 m) fun w m is a is' hread hm => ⟨h a.1 a.2 m hm, ?_⟩
  rw [Record.Kept, hu]
  exact (hR.acceptEnum hread).imp_right fun ⟨i, hi, heq⟩ => ⟨i, hname i hi, heq⟩

/-- A message inside holds what its own reader makes sure of. -/
theorem Lawful.keeps_message (hR : Lawful R) {new : N} {merge : N → Reader R.Input R.Error N}
    {P : N → Prop} (hmerge : ∀ is x is', merge new is = .ok (x, is') → P x)
    {get : M → Option N} {set : Option N → M → M}
    (h : ∀ x m, P x → Inside m → Inside (set (some x) m))
    (hu : ∀ o m, r.unknownFields (set o m) = r.unknownFields m) :
    r.Keeps Inside n (R.messageArm new merge get set) := by
  refine Record.keeps_of_read
    (fun w m => R.readSingularMessageInto new merge w (get m)) set fun w m is o is' hread hm => ?_
  obtain ⟨x, is₀, is₁, hx, rfl⟩ := hR.acceptMessage hread
  exact ⟨h x m (hmerge is₀ x is₁ hx) hm, .inl (hu _ m)⟩

theorem Lawful.keeps_messages (hR : Lawful R) {new : N} {merge : N → Reader R.Input R.Error N}
    {P : N → Prop} (hmerge : ∀ is x is', merge new is = .ok (x, is') → P x)
    {get : M → List N} {set : List N → M → M}
    (h : ∀ x m, P x → Inside m → Inside (set (get m ++ [x]) m))
    (hu : ∀ l m, r.unknownFields (set l m) = r.unknownFields m) :
    r.Keeps Inside n (R.messagesArm new merge get set) := by
  refine Record.keeps_of_read
    (fun w m => R.readRepeatedMessageInto new merge w (get m)) set fun w m is l is' hread hm => ?_
  obtain ⟨x, is₀, is₁, hx, rfl⟩ := hR.acceptRepeatedMessage hread
  exact ⟨h x m (hmerge is₀ x is₁ hx) hm, .inl (hu _ m)⟩

theorem Lawful.unread_noUnknown (hR : Lawful R) : Unread r R.noUnknown where
  collected := .none
  values x hx := by
    rw [hR.values_noUnknown] at hx
    cases hx

theorem Lawful.unread_addValue (hR : Lawful R) {u : R.UnknownFields} (hu : Unread r u)
    (hn : FieldNumber n) {v : UnknownValue}
    (hv : r.field n = none ∨ ∃ i, v = .ofEnum i ∧ r.Nameless n i) :
    Unread r (R.addValue n v u) where
  collected := hu.collected.add n v
  values x hx := by
    rcases hR.values_addValue hx with hold | rfl
    · exact hu.values x hold
    · exact ⟨hn, hv⟩

theorem Record.Kept.unread {m m' : M} (h : r.Kept n m m') (hR : Lawful R)
    (hn : FieldNumber n) (hu : Unread r (r.unknownFields m)) : Unread r (r.unknownFields m') := by
  rcases h with heq | ⟨i, hi, heq⟩
  · rw [heq]
    exact hu
  · rw [heq]
    exact hR.unread_addValue hu hn (.inr ⟨i, rfl, hi⟩)

/-- A record made of its own fields: every arm keeps what is `Inside`, and nothing of it is
among the unknown fields. -/
structure Record.Sound (r : Record R M) (Inside : M → Prop) : Prop where
  new : Inside r.new
  setUnknown : ∀ u m, Inside m → Inside (r.setUnknownFields u m)
  arms : ∀ n arm, r.field n = some arm → r.Keeps Inside n arm

theorem Record.Sound.readField (h : r.Sound Inside) (hR : Lawful R) (hn : FieldNumber n)
    {w : WireType} {m m' : M} {is is' : R.Input} (hrun : r.readField n w m is = .ok (m', is'))
    (hm : Inside m ∧ Unread r (r.unknownFields m)) :
    Inside m' ∧ Unread r (r.unknownFields m') := by
  rw [Record.readField] at hrun
  cases hfield : r.field n with
  | some arm =>
      rw [hfield] at hrun
      obtain ⟨hinside, hkept⟩ := h.arms n arm hfield w m is m' is' hrun hm.1
      exact ⟨hinside, hkept.unread hR hn hm.2⟩
  | none =>
      rw [hfield] at hrun
      obtain ⟨⟨u, is₁⟩, hread, hrun⟩ := bind_ok hrun
      cases hrun
      refine ⟨h.setUnknown u m hm.1, ?_⟩
      rw [r.unknownFields_set]
      rcases hR.acceptUnknown hread with rfl | ⟨v, rfl⟩
      · exact hm.2
      · exact hR.unread_addValue hm.2 hn (.inl hfield)

/-- What every field keeps, the loop keeps. -/
theorem Lawful.mergeFrom_keeps (hR : Lawful R) {step : ℕ → R.Arm M} {P : M → Prop}
    (hstep : ∀ {n w m is m' is'}, FieldNumber n → step n w m is = .ok (m', is') → P m → P m')
    {m m' : M} {is is' : R.Input} (h : R.mergeFrom step m is = .ok (m', is')) (hm : P m) :
    P m' := by
  rw [Runtime.mergeFrom] at h
  split at h
  · cases h
  · cases h
    exact hm
  · split at h
    · cases h
    · rename_i htag
      split at h
      · cases h
      · rename_i hfield
        split at h
        · exact hR.mergeFrom_keeps hstep h (hstep (hR.fieldNumber htag) hfield hm)
        · cases h
termination_by (R.rest is).length

/-- Whatever a reader accepts, it has made a message of that it can write. -/
theorem Record.Sound.mergeFrom (h : r.Sound Inside) (hR : Lawful R) {m : M} {is is' : R.Input}
    (hrun : r.mergeFrom r.new is = .ok (m, is')) : Inside m ∧ Unread r (r.unknownFields m) := by
  refine hR.mergeFrom_keeps (P := fun m => Inside m ∧ Unread r (r.unknownFields m))
    (fun hn hrun hm => h.readField hR hn hrun hm) hrun ⟨h.new, ?_⟩
  rw [r.unknownFields_new]
  exact hR.unread_noUnknown

end Accepted

end Wire
