import RsRaft.Lib.Wire

/-!
# Base-128 numbers

The runtime of the common wire format: seven bits a byte, the lowest first, and the
high bit of every byte but the last set. A tag is the number of its field, then three
bits for the type. Unknown fields are kept in the order they came, and groups are
refused.

§1 the format · §2 on the bytes · §3 on an input · §4 the laws.
-/

namespace Wire.Base128

/-! ## §1  The format -/

inductive Error where
  | unexpectedWireType (wireType : WireType)
  | unexpectedEof
  | truncatedMessage
  | overRecursionLimit
  | incorrectTag
  | incorrectVarint
deriving DecidableEq, Repr

/-- Inside a message there is a limit, so many bytes behind the last that is there, and so
many messages may still be entered. -/
structure Input where
  rest : List UInt8
  limit : Option ℕ
  depth : ℕ
deriving DecidableEq, Repr

def Input.advance (n : ℕ) (is : Input) : Input := { is with rest := is.rest.drop n }

/-- What takes bytes off a list, on an input. -/
def reading {α : Type} (f : List UInt8 → Except Error (α × List UInt8)) (is : Input) :
    Except (Fault Error) (α × Input) :=
  match f is.rest with
  | .error e => .error (.failed e)
  | .ok (a, rest) => .ok (a, { is with rest })

/-- One wire type is read, the others are refused. -/
def expecting {α : Type} (w : WireType) (f : List UInt8 → Except Error (α × List UInt8))
    (wireType : WireType) (is : Input) : Except (Fault Error) (α × Input) :=
  if wireType = w then reading f is else .error (.failed (.unexpectedWireType wireType))

def varint (v : ℕ) : List UInt8 :=
  if v < 128 then [UInt8.ofNat v] else UInt8.ofNat (v % 128 + 128) :: varint (v / 128)
termination_by v
decreasing_by omega

/-- A number of so many bytes at most. -/
def readVarint : ℕ → List UInt8 → Except Error (ℕ × List UInt8)
  | 0, _ => .error .incorrectVarint
  | _ + 1, [] => .error .unexpectedEof
  | k + 1, b :: is =>
      if b.toNat < 128 then .ok (b.toNat, is)
      else
        match readVarint k is with
        | .error e => .error e
        | .ok (v, is) => .ok (b.toNat - 128 + 128 * v, is)

/-- Bits that have no room are lost. -/
def readVarint64 (is : List UInt8) : Except Error (UInt64 × List UInt8) :=
  match readVarint 10 is with
  | .error e => .error e
  | .ok (v, is) => .ok (UInt64.ofNat v, is)

def wireValue : WireType → ℕ
  | .Varint => 0
  | .Fixed64 => 1
  | .LengthDelimited => 2
  | .StartGroup => 3
  | .EndGroup => 4
  | .Fixed32 => 5

def wireType : ℕ → Option WireType
  | 0 => some .Varint
  | 1 => some .Fixed64
  | 2 => some .LengthDelimited
  | 3 => some .StartGroup
  | 4 => some .EndGroup
  | 5 => some .Fixed32
  | _ => none

def tag (n : ℕ) (w : WireType) : List UInt8 := varint (8 * n + wireValue w)

def readTag (is : List UInt8) : Except Error ((ℕ × WireType) × List UInt8) :=
  match readVarint64 is with
  | .error e => .error e
  | .ok (v, is) =>
      let t := v.toUInt32.toNat
      match wireType (t % 8) with
      | some w => if FieldNumber (t / 8) then .ok ((t / 8, w), is) else .error .incorrectTag
      | none => .error .incorrectTag

def littleEndian : ℕ → ℕ → List UInt8
  | 0, _ => []
  | k + 1, v => UInt8.ofNat v :: littleEndian k (v / 256)

def ofLittleEndian : List UInt8 → ℕ
  | [] => 0
  | b :: is => b.toNat + 256 * ofLittleEndian is

def readRawBytes (n : ℕ) (is : List UInt8) : Except Error (List UInt8 × List UInt8) :=
  if is.length < n then .error .unexpectedEof else .ok (is.take n, is.drop n)

def bytes (b : List UInt8) : List UInt8 := varint (UInt32.ofNat b.length).toNat ++ b

def readBytes (is : List UInt8) : Except Error (List UInt8 × List UInt8) :=
  match readVarint64 is with
  | .error e => .error e
  | .ok (len, is) => readRawBytes len.toUInt32.toNat is

/-- The numbers up to the end, in so many bytes at most. -/
def readVarints : ℕ → List UInt8 → Except Error (List UInt64)
  | _, [] => .ok []
  | 0, _ => .error .unexpectedEof
  | k + 1, is => do
      let (v, is) ← readVarint64 is
      let vs ← readVarints k is
      pure (v :: vs)

/-- Numbers come one by one, or packed. -/
def readUint64s (vs : List UInt64) (wireType : WireType) (is : List UInt8) :
    Except Error (List UInt64 × List UInt8) := do
  match wireType with
  | .Varint =>
      let (v, is) ← readVarint64 is
      pure (vs ++ [v], is)
  | .LengthDelimited =>
      let (b, is) ← readBytes is
      let packed ← readVarints b.length b
      pure (vs ++ packed, is)
  | w => .error (.unexpectedWireType w)

/-- A message inside is merged up to its end, or to that of the input. -/
def readMessage {N : Type} (new : N) (merge : N → Reader Input Error N)
    (wireType : WireType) (is : Input) : Except (Fault Error) (N × Input) :=
  if wireType ≠ .LengthDelimited then .error (.failed (.unexpectedWireType wireType))
  else if is.depth = 0 then .error (.failed .overRecursionLimit)
  else
    match readVarint64 is.rest with
    | .error e => .error (.failed e)
    | .ok (len, rest) =>
        if (is.limit.elim true fun limit => decide (len.toNat ≤ rest.length + limit)) then
          match merge new
              ⟨rest.take len.toNat, some (len.toNat - rest.length), is.depth - 1⟩ with
          | .error e => .error e
          | .ok (x, is') =>
              .ok (x, { is with rest := is'.rest ++ rest.drop len.toNat })
        else .error (.failed .truncatedMessage)

def unknown : UnknownValue → List UInt8
  | .Fixed32 v => littleEndian 4 v.toNat
  | .Fixed64 v => littleEndian 8 v.toNat
  | .Varint v => varint v.toNat
  | .LengthDelimited b => bytes b

def readUnknown (wireType : WireType) (is : List UInt8) :
    Except Error (UnknownValue × List UInt8) := do
  match wireType with
  | .Varint =>
      let (v, is) ← readVarint64 is
      pure (.Varint v, is)
  | .Fixed64 =>
      let (b, is) ← readRawBytes 8 is
      pure (.Fixed64 (UInt64.ofNat (ofLittleEndian b)), is)
  | .Fixed32 =>
      let (b, is) ← readRawBytes 4 is
      pure (.Fixed32 (UInt32.ofNat (ofLittleEndian b)), is)
  | .LengthDelimited =>
      let (b, is) ← readBytes is
      pure (.LengthDelimited b, is)
  | w => .error (.unexpectedWireType w)

def readBool (is : List UInt8) : Except Error (Bool × List UInt8) := do
  let (v, is) ← readVarint64 is
  pure (decide (v.toUInt32 ≠ 0), is)

def readUnknownInto (n : ℕ) (wireType : WireType) (u : List (ℕ × UnknownValue))
    (is : List UInt8) : Except Error (List (ℕ × UnknownValue) × List UInt8) := do
  let (v, is) ← readUnknown wireType is
  pure (u ++ [(n, v)], is)

/-- A number that has a name, or the number. -/
def readEnum {α : Type} (fromI32 : Int32 → Option α) (a : α) (n : ℕ)
    (u : List (ℕ × UnknownValue)) (is : List UInt8) :
    Except Error ((α × List (ℕ × UnknownValue)) × List UInt8) := do
  let (v, is) ← readVarint64 is
  let i := v.toInt64.toInt32
  pure ((fromI32 i).elim (a, u ++ [(n, .ofEnum i)]) fun a => (a, u), is)

def size (b : List UInt8) : UInt32 := UInt32.ofNat b.length

def writeUnknown (u : List (ℕ × UnknownValue)) : List UInt8 :=
  u.flatMap fun x => tag x.1 x.2.wireType ++ unknown x.2

def runtime : Runtime where
  Error := Error
  Input := Input
  UnknownFields := List (ℕ × UnknownValue)
  unexpectedWireType := .unexpectedWireType
  fromBytes b := ⟨b, none, 100⟩
  rest := Input.rest
  advance := Input.advance
  depth := Input.depth
  eof is := .ok (decide (is.rest = []), is)
  readTagUnpack := reading readTag
  readUint64 := reading readVarint64
  readBool := reading readBool
  readEnumInto fromI32 w a n u := expecting .Varint (readEnum fromI32 a n u) w
  readBytesInto w _ := expecting .LengthDelimited readBytes w
  readRepeatedUint64Into w vs := reading (readUint64s vs w)
  readSingularMessageInto new merge w _ is :=
    (readMessage new merge w is).map fun x => (some x.1, x.2)
  readRepeatedMessageInto new merge w l is :=
    (readMessage new merge w is).map fun x => (l ++ [x.1], x.2)
  readUnknownOrSkipGroup n w u := reading (readUnknownInto n w u)
  noUnknown := []
  addValue n v u := u ++ [(n, v)]
  values u := u
  writeTag := tag
  writeRawVarint32 v := varint v.toNat
  writeUint64 n v := tag n .Varint ++ varint v.toNat
  writeUint64NoTag v := varint v.toNat
  writeEnum n i := tag n .Varint ++ varint i.toInt64.toUInt64.toNat
  writeEnumNoTag i := varint i.toInt64.toUInt64.toNat
  writeBool n b := tag n .Varint ++ varint b.toNat
  writeBoolNoTag b := varint b.toNat
  writeBytes n b := tag n .LengthDelimited ++ bytes b
  writeBytesNoTag := bytes
  writeUnknownFields := writeUnknown
  writeUnknownNoTag := unknown
  computeRawVarint32Size v := size (varint v.toNat)
  valueSize n v _ := size (tag n .Varint ++ varint v.toNat)
  enumSize n i := size (tag n .Varint ++ varint i.toInt64.toUInt64.toNat)
  bytesSize n b := size (tag n .LengthDelimited ++ bytes b)
  unknownFieldsSize u := size (writeUnknown u)

/-! ## §2  On the bytes -/

theorem toNat_ofNat_of_lt {v : ℕ} (hv : v < 256) : (UInt8.ofNat v).toNat = v := by
  simp [Nat.mod_eq_of_lt hv]

theorem readVarint_varint {k : ℕ} (v : ℕ) (hk : (varint v).length ≤ k) (rest : List UInt8) :
    readVarint k (varint v ++ rest) = .ok (v, rest) := by
  induction v using Nat.strongRecOn generalizing k with
  | ind v ih =>
      rw [varint] at hk ⊢
      cases k with
      | zero =>
          split at hk <;> simp at hk
      | succ k =>
          split
          · rename_i hsmall
            simp [readVarint, toNat_ofNat_of_lt (show v < 256 by omega), hsmall]
          · rename_i hlarge
            rw [if_neg hlarge, List.length_cons] at hk
            have hbyte := toNat_ofNat_of_lt (show v % 128 + 128 < 256 by omega)
            rw [List.cons_append, readVarint, hbyte, if_neg (by omega),
              ih (v / 128) (by omega) (by omega)]
            dsimp only
            rw [Nat.add_sub_cancel, Nat.mod_add_div]

theorem varint_ne_nil (v : ℕ) : varint v ≠ [] := by
  rw [varint]
  split <;> simp

/-- Seven bits a byte. -/
theorem length_varint (v : ℕ) : (varint v).length = Nat.log2 v / 7 + 1 := by
  induction v using Nat.strongRecOn with
  | ind v ih =>
      rw [varint]
      split
      · rename_i hsmall
        rcases Nat.eq_zero_or_pos v with rfl | hpos
        · rfl
        · have hlog := (Nat.log2_lt (Nat.ne_of_gt hpos)).mpr (show v < 2 ^ 7 from hsmall)
          rw [List.length_singleton, Nat.div_eq_of_lt hlog]
      · rename_i hlarge
        have hlog : Nat.log2 v = Nat.log2 (v / 128) + 7 := by
          obtain ⟨hlow, hhigh⟩ :=
            (Nat.log2_eq_iff (show v / 128 ≠ 0 by omega)).mp rfl
          rw [Nat.log2_eq_iff (by omega)]
          rw [Nat.pow_succ] at hhigh
          simp only [Nat.pow_succ]
          omega
        rw [List.length_cons, ih (v / 128) (by omega), hlog, Nat.add_div_right _ (by decide)]

theorem length_varint_le {v : ℕ} (hv : v < 2 ^ 64) : (varint v).length ≤ 10 := by
  rw [length_varint]
  rcases Nat.eq_zero_or_pos v with rfl | hpos
  · decide
  · have hlog := (Nat.log2_lt (Nat.ne_of_gt hpos)).mpr hv
    omega

theorem readVarint64_varint {v : ℕ} (hv : v < 2 ^ 64) (rest : List UInt8) :
    readVarint64 (varint v ++ rest) = .ok (UInt64.ofNat v, rest) := by
  rw [readVarint64, readVarint_varint v (length_varint_le hv)]

theorem readUint64_varint (v : UInt64) (rest : List UInt8) :
    readVarint64 (varint v.toNat ++ rest) = .ok (v, rest) := by
  rw [readVarint64_varint v.toNat_lt, UInt64.ofNat_toNat]

theorem wireValue_lt (w : WireType) : wireValue w < 8 := by cases w <;> decide

/-- A number up to `15` and a type share one byte. -/
theorem length_tag_low {n : ℕ} (hn : n ≤ 15) (w : WireType) : (tag n w).length = 1 := by
  have hw := wireValue_lt w
  rw [tag, varint, if_pos (by omega)]
  rfl

theorem wireType_wireValue (w : WireType) : wireType (wireValue w) = some w := by
  cases w <;> rfl

theorem toUInt32_ofNat {v : ℕ} (hv : v < 2 ^ 32) : (UInt64.ofNat v).toUInt32.toNat = v := by
  rw [UInt64.toNat_toUInt32, UInt64.toNat_ofNat_of_lt' (Nat.lt_trans hv (by decide)),
    Nat.mod_eq_of_lt hv]

theorem readTag_tag {n : ℕ} (hn : FieldNumber n) (w : WireType) (rest : List UInt8) :
    readTag (tag n w ++ rest) = .ok ((n, w), rest) := by
  have hw := wireValue_lt w
  have hlt : 8 * n + wireValue w < 2 ^ 32 := by
    have hupper := hn.2
    omega
  rw [readTag, tag, readVarint64_varint (Nat.lt_trans hlt (by decide))]
  dsimp only
  rw [toUInt32_ofNat hlt, show (8 * n + wireValue w) % 8 = wireValue w by omega,
    wireType_wireValue, show (8 * n + wireValue w) / 8 = n by omega]
  dsimp only
  rw [if_pos hn]

theorem fieldNumber_of_readTag {is rest : List UInt8} {n : ℕ} {w : WireType}
    (h : readTag is = .ok ((n, w), rest)) : FieldNumber n := by
  rw [readTag] at h
  split at h
  · cases h
  · dsimp only at h
    split at h
    · split at h
      · cases h
        assumption
      · cases h
    · cases h

theorem length_littleEndian (k v : ℕ) : (littleEndian k v).length = k := by
  induction k generalizing v with
  | zero => rfl
  | succ k ih => rw [littleEndian, List.length_cons, ih]

theorem ofLittleEndian_littleEndian (k v : ℕ) :
    ofLittleEndian (littleEndian k v) = v % 256 ^ k := by
  induction k generalizing v with
  | zero => simp [littleEndian, ofLittleEndian, Nat.mod_one]
  | succ k ih =>
      rw [littleEndian, ofLittleEndian, ih, UInt8.toNat_ofNat',
        show 256 ^ (k + 1) = 256 * 256 ^ k from Nat.pow_succ', Nat.mod_mul]

theorem readRawBytes_append (b rest : List UInt8) :
    readRawBytes b.length (b ++ rest) = .ok (b, rest) := by
  simp [readRawBytes]

theorem readRawBytes_littleEndian (k v : ℕ) (rest : List UInt8) :
    readRawBytes k (littleEndian k v ++ rest) = .ok (littleEndian k v, rest) := by
  have hread := readRawBytes_append (littleEndian k v) rest
  rwa [length_littleEndian] at hread

theorem readBytes_bytes {b : List UInt8} (hlen : b.length < 2 ^ 32) (rest : List UInt8) :
    readBytes (bytes b ++ rest) = .ok (b, rest) := by
  rw [readBytes, bytes, UInt32.toNat_ofNat_of_lt' hlen, List.append_assoc,
    readVarint64_varint (Nat.lt_trans hlen (by decide))]
  dsimp only
  rw [toUInt32_ofNat hlen, readRawBytes_append]

theorem readUnknown_unknown {v : UnknownValue} (hlen : (unknown v).length < 2 ^ 32)
    (rest : List UInt8) : readUnknown v.wireType (unknown v ++ rest) = .ok (v, rest) := by
  cases v with
  | Fixed32 v =>
      show (readRawBytes 4 (littleEndian 4 v.toNat ++ rest) >>= _) = _
      rw [readRawBytes_littleEndian]
      show Except.ok (UnknownValue.Fixed32 (UInt32.ofNat (ofLittleEndian _)), rest) = _
      rw [ofLittleEndian_littleEndian, Nat.mod_eq_of_lt (show v.toNat < 256 ^ 4 from v.toNat_lt),
        UInt32.ofNat_toNat]
  | Fixed64 v =>
      show (readRawBytes 8 (littleEndian 8 v.toNat ++ rest) >>= _) = _
      rw [readRawBytes_littleEndian]
      show Except.ok (UnknownValue.Fixed64 (UInt64.ofNat (ofLittleEndian _)), rest) = _
      rw [ofLittleEndian_littleEndian, Nat.mod_eq_of_lt (show v.toNat < 256 ^ 8 from v.toNat_lt),
        UInt64.ofNat_toNat]
  | Varint v =>
      show (readVarint64 (varint v.toNat ++ rest) >>= _) = _
      rw [readUint64_varint]
      rfl
  | LengthDelimited b =>
      rw [unknown, bytes, List.length_append] at hlen
      show (readBytes (bytes b ++ rest) >>= _) = _
      rw [readBytes_bytes (by omega)]
      rfl

theorem readUint64s_varint (vs : List UInt64) (v : UInt64) (rest : List UInt8) :
    readUint64s vs .Varint (varint v.toNat ++ rest) = .ok (vs ++ [v], rest) := by
  rw [readUint64s, readUint64_varint]
  rfl

theorem readBool_varint (b : Bool) (rest : List UInt8) :
    readBool (varint b.toNat ++ rest) = .ok (b, rest) := by
  rw [readBool, readVarint64_varint (Nat.lt_trans (Bool.toNat_lt b) (by decide))]
  cases b <;> rfl

theorem readUnknownInto_unknown {v : UnknownValue} (hlen : (unknown v).length < 2 ^ 32) (n : ℕ)
    (u : List (ℕ × UnknownValue)) (rest : List UInt8) :
    readUnknownInto n v.wireType u (unknown v ++ rest) = .ok (u ++ [(n, v)], rest) := by
  rw [readUnknownInto, readUnknown_unknown hlen]
  rfl

section Enumerations

variable {α : Type} {fromI32 : Int32 → Option α} {i : Int32} (n : ℕ)
  (u : List (ℕ × UnknownValue)) (rest : List UInt8)

theorem readEnum_named {a : α} (hi : fromI32 i = some a) (b : α) :
    readEnum fromI32 b n u (varint i.toInt64.toUInt64.toNat ++ rest) = .ok ((a, u), rest) := by
  rw [readEnum, readUint64_varint]
  show Except.ok (_, rest) = _
  rw [Int64.toInt64_toUInt64, Int32.toInt32_toInt64, hi]
  rfl

theorem readEnum_nameless (hi : fromI32 i = none) (b : α) :
    readEnum fromI32 b n u (varint i.toInt64.toUInt64.toNat ++ rest) =
      .ok ((b, u ++ [(n, .ofEnum i)]), rest) := by
  rw [readEnum, readUint64_varint]
  show Except.ok (_, rest) = _
  rw [Int64.toInt64_toUInt64, Int32.toInt32_toInt64, hi]
  rfl

/-- The fields nobody knows stay, or the number comes to them. -/
theorem unknown_of_readEnum {a a' : α} {u' : List (ℕ × UnknownValue)} {is is' : List UInt8}
    (h : readEnum fromI32 a n u is = .ok ((a', u'), is')) :
    u' = u ∨ ∃ i, fromI32 i = none ∧ u' = u ++ [(n, .ofEnum i)] := by
  obtain ⟨⟨v, is₁⟩, -, h⟩ := bind_ok h
  dsimp only at h
  cases hi : fromI32 v.toInt64.toInt32 with
  | some b =>
      rw [hi] at h
      cases h
      exact .inl rfl
  | none =>
      rw [hi] at h
      cases h
      exact .inr ⟨_, hi, rfl⟩

end Enumerations

theorem foldl_append_values (u : List (ℕ × UnknownValue)) :
    u.foldl (fun u x => u ++ [(x.1, x.2)]) [] = u := by
  rw [List.foldl_append_eq_append, List.nil_append, ← List.flatMap_def]
  simp

/-! ## §3  On an input -/

section Taking

variable {α : Type} {f : List UInt8 → Except Error (α × List UInt8)} {b : List UInt8} {a : α}

theorem takes_reading (h : ∀ rest, f (b ++ rest) = .ok (a, rest)) :
    runtime.Takes 0 (reading f) b a := by
  intro (is : Input) rest hdepth hrest
  replace hrest : is.rest = b ++ rest := hrest
  show reading f is = .ok (a, is.advance b.length)
  rw [reading, Input.advance, hrest, h, List.drop_left]

theorem takes_expecting {w : WireType} (h : ∀ rest, f (b ++ rest) = .ok (a, rest)) :
    runtime.Takes 0 (expecting w f w) b a := by
  intro (is : Input) rest hdepth hrest
  rw [expecting, if_pos rfl]
  exact takes_reading h is rest hdepth hrest

/-- What was read on an input was read on its bytes. -/
theorem reading_ok {is is' : Input} (h : reading f is = .ok (a, is')) :
    ∃ rest, f is.rest = .ok (a, rest) := by
  rw [reading] at h
  split at h
  · cases h
  · rename_i hf
    cases h
    exact ⟨_, hf⟩

end Taking

section Embedding

variable {N : Type} {new : N} {merge : N → Reader Input Error N} {x : N}

theorem takes_readMessage {d : ℕ} {len : UInt32} {b : List UInt8}
    (h : runtime.Embeds d new merge len b x) :
    runtime.Takes (d + 1) (readMessage new merge .LengthDelimited) (varint len.toNat ++ b)
      x := by
  intro (is : Input) rest hdepth hrest
  replace hdepth : d + 1 ≤ is.depth := hdepth
  replace hrest : is.rest = varint len.toNat ++ b ++ rest := hrest
  have hlen : len.toNat < 2 ^ 64 := Nat.lt_trans len.toNat_lt (by decide)
  have hfit : (is.limit.elim true fun limit =>
      decide (b.length ≤ (b ++ rest).length + limit)) = true := by
    rw [List.length_append]
    cases is.limit with
    | none => rfl
    | some limit => exact decide_eq_true (by omega)
  show readMessage new merge .LengthDelimited is =
    .ok (x, is.advance (varint len.toNat ++ b).length)
  rw [readMessage, if_neg (by decide), if_neg (by omega), Input.advance, hrest,
    List.drop_left, List.append_assoc, readVarint64_varint hlen]
  dsimp only
  rw [UInt64.toNat_ofNat_of_lt' hlen, h.size, if_pos hfit, List.take_left, List.drop_left]
  have hmerge : ∀ limit, merge new ⟨b, limit, is.depth - 1⟩ =
      .ok (x, ⟨b.drop b.length, limit, is.depth - 1⟩) :=
    fun limit => h.merge ⟨b, limit, is.depth - 1⟩ (Nat.le_sub_one_of_lt hdepth) rfl
  rw [hmerge, List.drop_length]
  rfl

theorem readMessage_ok {w : WireType} {is is' : Input}
    (h : readMessage new merge w is = .ok (x, is')) :
    ∃ is₀ is₁, merge new is₀ = .ok (x, is₁) := by
  rw [readMessage] at h
  split at h
  · cases h
  · split at h
    · cases h
    · split at h
      · cases h
      · split at h
        · split at h
          · cases h
          · rename_i hmerge
            cases h
            exact ⟨_, _, hmerge⟩
        · cases h

end Embedding

/-- What was made of the message inside, the merging of it has made. -/
theorem map_readMessage_ok {N α : Type} {new : N} {merge : N → Reader Input Error N}
    {w : WireType} {is is' : Input} {f : N → α} {a : α}
    (h : (readMessage new merge w is).map (fun x => (f x.1, x.2)) = .ok (a, is')) :
    ∃ x is₀ is₁, merge new is₀ = .ok (x, is₁) ∧ a = f x := by
  cases hread : readMessage new merge w is with
  | error e =>
      rw [hread] at h
      cases h
  | ok x =>
      rw [hread] at h
      cases h
      obtain ⟨is₀, is₁, hmerge⟩ := readMessage_ok hread
      exact ⟨x.1, is₀, is₁, hmerge, rfl⟩

/-! ## §4  The laws -/

theorem lawful : Lawful runtime where
  rest_fromBytes _ := rfl
  advance_zero _ := rfl
  advance_advance {n k is} _ :=
    congrArg (fun rest => Input.mk rest is.limit is.depth) (List.drop_drop (l := is.rest))
  rest_advance _ := rfl
  depth_fromBytes _ := rfl
  depth_advance _ _ := rfl
  eof _ := rfl
  readTag hn w := takes_reading (readTag_tag hn w)
  fieldNumber h := fieldNumber_of_readTag (reading_ok h).choose_spec
  tag_ne_nil _ w := varint_ne_nil _
  tag_low _ hn w := length_tag_low hn w
  writeUint64 _ _ := rfl
  readUint64 v := takes_reading (readUint64_varint v)
  readRepeatedUint64 vs v := takes_reading (readUint64s_varint vs v)
  valueSize _ _ := rfl
  writeBool _ _ := rfl
  readBool b := takes_reading (readBool_varint b)
  boolSize b := by cases b <;> decide +kernel
  writeEnum _ _ := rfl
  readEnum hi b n u :=
    takes_expecting (w := .Varint) fun rest => readEnum_named n u rest hi b
  readNameless hi b n u :=
    takes_expecting (w := .Varint) fun rest => readEnum_nameless n u rest hi b
  acceptEnum := by
    intro α fromI32 w b n u (is : Input) a u' is' h
    replace h : expecting .Varint (readEnum fromI32 b n u) w is = _ := h
    rw [expecting] at h
    split at h
    · exact unknown_of_readEnum n u (reading_ok h).choose_spec
    · cases h
  enumSize _ _ := rfl
  writeBytes _ _ := rfl
  readBytes hlen _ := takes_expecting (w := .LengthDelimited) (readBytes_bytes hlen)
  bytesSize _ _ _ := rfl
  length_bytes b := by
    show b.length ≤ (bytes b).length
    rw [bytes, List.length_append]
    exact Nat.le_add_left _ _
  readMessage {_ _ new merge _ _ x} h o := by
    intro is rest hdepth hrest
    show (readMessage new merge .LengthDelimited is).map _ = _
    rw [takes_readMessage h is rest hdepth hrest]
    rfl
  readRepeatedMessage {_ _ new merge _ _ x} h l := by
    intro is rest hdepth hrest
    show (readMessage new merge .LengthDelimited is).map _ = _
    rw [takes_readMessage h is rest hdepth hrest]
    rfl
  acceptMessage h := map_readMessage_ok h
  acceptRepeatedMessage {_ _ _ _ l _ _ _} h := map_readMessage_ok (f := fun x => l ++ [x]) h
  varint32Size _ := rfl
  values_noUnknown := rfl
  values_addValue := by
    intro n v u x hx
    rcases List.mem_append.mp hx with hold | hnew
    · exact .inl hold
    · exact .inr (List.mem_singleton.mp hnew)
  addValue_values {u} _ := foldl_append_values u
  writeUnknownFields _ := rfl
  writeUnknown_ofEnum _ := rfl
  readUnknown {v} hlen n u :=
    takes_reading (readUnknownInto_unknown hlen n u)
  acceptUnknown := by
    intro n w u (is : Input) u' is' h
    replace h : reading (readUnknownInto n w u) is = _ := h
    obtain ⟨rest, hread⟩ := reading_ok h
    obtain ⟨⟨v, is₁⟩, -, hread⟩ := bind_ok hread
    cases hread
    exact .inr ⟨v, rfl⟩
  unknownFieldsSize _ _ := rfl

theorem sevenBit : SevenBit runtime where
  length_uint64 v := length_varint _
  length_enum i := length_varint _
  length_bytes {b} hlen := by
    show (bytes b).length = _
    rw [bytes, List.length_append, length_varint, UInt32.toNat_ofNat_of_lt' hlen]

end Wire.Base128
